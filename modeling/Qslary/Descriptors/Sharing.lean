import Qslary.Descriptors.PartialMap

/-!
# Calls that overlap

The lookup and the creation of one `getFdContext(fd, true)` are two sections, and other
calls come between them.  The second section does not look whether a context is there
by now, so it replaces one that another call has made.
-/

namespace Qslary.Descriptors

open Qslary.Foundation

inductive Setting where
  | userNonBlock (v : Bool)
  | timeout (type : Nat) (v : UInt64)
  deriving DecidableEq, Repr

def FdContext.set (ctx : FdContext) : Setting → FdContext
  | .userNonBlock v => ctx.setUserNonBlock v
  | .timeout type v => ctx.setTimeout type v

/-- How far a call has got. -/
inductive Progress where
  | idle
  | missed (fd : Fd)
  | returned (fd : Fd) (result : Ptr)
  deriving DecidableEq

/-- The manager, the calls by number, and the settings made so far. -/
structure Shared where
  manager : FdContextManager
  calls : Nat → Progress
  settings : List (Nat × Setting)

/-- The calls are all `getFdContext(fd, true)`, and a setting is made on what one returned. -/
inductive Act where
  | lookup (call : Nat) (fd : Fd)
  | create (call : Nat)
  | set (call : Nat) (setting : Setting)

namespace Shared

def initial (kernel : Kernel) : Shared := ⟨.new kernel, fun _ => .idle, []⟩

def goto (s : Shared) (call : Nat) (progress : Progress) : Shared :=
  { s with calls := Function.update s.calls call progress }

def guard (s : Shared) : Act → Bool
  | .lookup call _ => s.calls call = .idle
  | .create call =>
      match s.calls call with
      | .missed _ => true
      | _ => false
  | .set call _ =>
      match s.calls call with
      | .returned _ (some _) => true
      | _ => false

def exec (s : Shared) : Act → Except Fault Shared
  | .lookup call fd =>
      if fd.val = -1 then .ok (s.goto call (.returned fd none))
      else
        match s.manager.lookup fd.val true with
        | some found => .ok (s.goto call (.returned fd found))
        | none => .ok (s.goto call (.missed fd))
  | .create call =>
      match s.calls call with
      | .missed fd => do
          let (m, c) ← s.manager.create fd.val
          .ok ({ s with manager := m }.goto call (.returned fd (some c)))
      | _ => .ok s
  | .set call setting =>
      match s.calls call with
      | .returned _ (some c) =>
          .ok { s with
            manager := { s.manager with objects := s.manager.objects.modify c (·.set setting) }
            settings := s.settings ++ [(c, setting)] }
      | _ => .ok s

def machine : Machine Shared Act Fault := ⟨guard, exec⟩

/-- The settings made on one object, in their order. -/
def settingsOf (s : Shared) (c : Nat) : List Setting :=
  (s.settings.filter (·.1 = c)).map Prod.snd

/-- One context for a descriptor, and every setting ever made on it is still there. -/
structure OneContext (s : Shared) : Prop where
  one : ∀ k l fd c d, s.calls k = .returned fd (some c) → s.calls l = .returned fd (some d) → c = d
  kept : ∀ k fd c, s.calls k = .returned fd (some c) → s.manager.contextOf fd.val = some c ∧
    ∃ kernel, s.manager.objects[c]? =
      some ((s.settingsOf c).foldl FdContext.set (FdContext.new fd.val kernel).1)

/-- What creates a context finds none. -/
def findsNone (s : Shared) : Act → Bool
  | .create call =>
      match s.calls call with
      | .missed fd => s.manager.contextOf fd.val = none
      | _ => true
  | _ => true

/-! ## What a step can do -/

variable {s s' : Shared} {kernel : Kernel} {acts : List Act}

/--
What holds of any run: a context in the vector has been returned by the call that made
it, and an object has the settings that were made on it.
-/
structure Inv (s : Shared) : Prop where
  manager : s.manager.Inv
  missed : ∀ {k fd}, s.calls k = .missed fd → 0 ≤ fd.val
  registered : ∀ {fd : Fd} {c}, s.manager.contextOf fd.val = some c →
    ∃ k, s.calls k = .returned fd (some c)
  made : ∀ {k fd c}, s.calls k = .returned fd (some c) → ∃ kernel, s.manager.objects[c]? =
    some ((s.settingsOf c).foldl FdContext.set (FdContext.new fd.val kernel).1)
  settings_lt : ∀ x ∈ s.settings, x.1 < s.manager.objects.length

inductive Moves (s : Shared) : Act → Shared → Prop
  | finds {call fd} (hidle : s.calls call = .idle)
      (hfound : fd.val = -1 ∨ (s.manager.contextOf fd.val).isSome = true) :
      Moves s (.lookup call fd) (s.goto call (.returned fd (s.manager.contextOf fd.val)))
  | misses {call fd} (hidle : s.calls call = .idle) (hfd : 0 ≤ fd.val) :
      Moves s (.lookup call fd) (s.goto call (.missed fd))
  | creates {call fd m} (hmissed : s.calls call = .missed fd)
      (hcreates : s.manager.Creates m fd.val) :
      Moves s (.create call)
        ({ s with manager := m }.goto call (.returned fd (some s.manager.objects.length)))
  | sets {call fd c setting} (hreturned : s.calls call = .returned fd (some c)) :
      Moves s (.set call setting) { s with
        manager := { s.manager with objects := s.manager.objects.modify c (·.set setting) }
        settings := s.settings ++ [(c, setting)] }

theorem moves_of_lookup {call : Nat} {fd : Fd}
    (hstep : machine.step s (.lookup call fd) = some s') : Moves s (.lookup call fd) s' := by
  obtain ⟨hguard, hexec⟩ := machine.step_eq_some_iff.mp hstep
  have hidle : s.calls call = .idle := of_decide_eq_true hguard
  simp only [machine, exec] at hexec
  by_cases hneg : fd.val = -1
  · rw [if_pos hneg] at hexec
    cases hexec
    have hfinds := Moves.finds hidle (.inl hneg)
    rwa [hneg] at hfinds
  have hfd : 0 ≤ fd.val := by
    have := fd.ge
    omega
  rw [if_neg hneg, FdContextManager.lookup_eq hfd fd.lt, Bool.not_true, Bool.and_false,
    Bool.or_false] at hexec
  by_cases hsome : (s.manager.contextOf fd.val).isSome = true
  · rw [if_pos hsome] at hexec
    cases hexec
    exact .finds hidle (.inr hsome)
  · rw [if_neg hsome] at hexec
    cases hexec
    exact .misses hidle hfd

theorem moves_of_create (h : s.Inv) {call : Nat} (hstep : machine.step s (.create call) = some s') :
    Moves s (.create call) s' := by
  obtain ⟨hguard, hexec⟩ := machine.step_eq_some_iff.mp hstep
  simp only [machine, guard, exec] at hguard hexec
  split at hguard
  · rename_i fd hmissed
    rw [hmissed] at hexec
    obtain ⟨m, hcreate, hcreates⟩ :=
      FdContextManager.create_eq h.manager (h.missed hmissed) fd.lt
    simp only [hcreate, bind, Except.bind] at hexec
    cases hexec
    exact .creates hmissed hcreates
  · cases hguard

theorem moves_of_set {call : Nat} {setting : Setting}
    (hstep : machine.step s (.set call setting) = some s') : Moves s (.set call setting) s' := by
  obtain ⟨hguard, hexec⟩ := machine.step_eq_some_iff.mp hstep
  simp only [machine, guard, exec] at hguard hexec
  split at hguard
  · rename_i fd c hreturned
    rw [hreturned] at hexec
    cases hexec
    exact .sets hreturned
  · cases hguard

theorem moves_of_step (h : s.Inv) {act : Act} (hstep : machine.step s act = some s') :
    Moves s act s' := by
  cases act with
  | lookup call fd => exact moves_of_lookup hstep
  | create call => exact moves_of_create h hstep
  | set call setting => exact moves_of_set hstep

/-! ## The invariant -/

@[simp] theorem goto_manager (s : Shared) (k : Nat) (p : Progress) :
    (s.goto k p).manager = s.manager := rfl

@[simp] theorem goto_settings (s : Shared) (k : Nat) (p : Progress) :
    (s.goto k p).settings = s.settings := rfl

@[simp] theorem goto_settingsOf (s : Shared) (k : Nat) (p : Progress) :
    (s.goto k p).settingsOf = s.settingsOf := rfl

theorem goto_calls (s : Shared) (k : Nat) (p : Progress) (l : Nat) :
    (s.goto k p).calls l = if l = k then p else s.calls l :=
  Function.update_apply _ _ _ _

theorem calls_goto_of_returned {k l : Nat} {p : Progress} {fd : Fd} {result : Ptr}
    (hk : ∀ fd result, s.calls k ≠ .returned fd result) (hl : s.calls l = .returned fd result) :
    (s.goto k p).calls l = .returned fd result := by
  rw [goto_calls, if_neg ?_]
  · exact hl
  · rintro rfl
    exact hk _ _ hl

theorem settingsOf_append (s : Shared) (c d : Nat) (setting : Setting)
    (manager : FdContextManager) :
    settingsOf { s with manager := manager, settings := s.settings ++ [(c, setting)] } d =
      if c = d then s.settingsOf d ++ [setting] else s.settingsOf d := by
  simp only [settingsOf, List.filter_append, List.map_append]
  by_cases h : c = d
  · simp [h]
  · simp [h]

theorem settingsOf_fresh (h : s.Inv) : s.settingsOf s.manager.objects.length = [] := by
  rw [settingsOf, List.map_eq_nil_iff, List.filter_eq_nil_iff]
  intro x hx
  have := h.settings_lt x hx
  simp only [decide_eq_true_eq]
  omega

theorem initial_inv (kernel : Kernel) : (initial kernel).Inv := by
  refine ⟨FdContextManager.new_inv kernel, nofun, fun {fd c} hc => ?_, nofun, nofun⟩
  have hnone := FdContextManager.contextOf_new kernel fd.val
  cases hnone.symm.trans hc

theorem Inv.finds (h : s.Inv) {call : Nat} {fd : Fd} (hidle : s.calls call = .idle) :
    (s.goto call (.returned fd (s.manager.contextOf fd.val))).Inv := by
  have hstays : ∀ fd result, s.calls call ≠ .returned fd result := by
    intro fd result hreturned
    cases hidle.symm.trans hreturned
  refine ⟨h.manager, fun {k fd} hk => ?_, fun {fd c} hc => ?_, fun {k fd' c} hk => ?_,
    h.settings_lt⟩
  · rw [goto_calls] at hk
    split at hk
    · cases hk
    · exact h.missed hk
  · obtain ⟨k, hk⟩ := h.registered hc
    exact ⟨k, calls_goto_of_returned hstays hk⟩
  · rw [goto_calls] at hk
    split at hk
    · obtain ⟨rfl, hc⟩ := Progress.returned.inj hk
      obtain ⟨l, hl⟩ := h.registered hc
      exact h.made hl
    · exact h.made hk

theorem Inv.misses (h : s.Inv) {call : Nat} {fd : Fd} (hidle : s.calls call = .idle)
    (hfd : 0 ≤ fd.val) : (s.goto call (.missed fd)).Inv := by
  have hstays : ∀ fd result, s.calls call ≠ .returned fd result := by
    intro fd result hreturned
    cases hidle.symm.trans hreturned
  refine ⟨h.manager, fun {k fd} hk => ?_, fun {fd c} hc => ?_, fun {k fd c} hk => ?_,
    h.settings_lt⟩
  · rw [goto_calls] at hk
    split at hk
    · cases hk
      exact hfd
    · exact h.missed hk
  · obtain ⟨k, hk⟩ := h.registered hc
    exact ⟨k, calls_goto_of_returned hstays hk⟩
  · rw [goto_calls] at hk
    split at hk
    · cases hk
    · exact h.made hk

theorem Inv.creates (h : s.Inv) {call : Nat} {fd : Fd} {m : FdContextManager}
    (hmissed : s.calls call = .missed fd) (hcreates : s.manager.Creates m fd.val) :
    ({ s with manager := m }.goto call (.returned fd (some s.manager.objects.length))).Inv := by
  have hstays : ∀ fd result, s.calls call ≠ .returned fd result := by
    intro fd result hreturned
    cases hmissed.symm.trans hreturned
  refine ⟨hcreates.inv, fun {k fd} hk => ?_, fun {fd' c} hc => ?_, fun {k fd' c} hk => ?_,
    fun x hx => ?_⟩
  · rw [goto_calls] at hk
    split at hk
    · cases hk
    · exact h.missed hk
  · simp only [goto_manager, hcreates.contextOf_eq] at hc
    split at hc
    · rename_i heq
      obtain rfl := Fd.ext heq
      cases hc
      exact ⟨call, by rw [goto_calls, if_pos rfl]⟩
    · obtain ⟨k, hk⟩ := h.registered hc
      exact ⟨k, calls_goto_of_returned (s := { s with manager := m }) hstays hk⟩
  · simp only [goto_manager, goto_settingsOf, hcreates.objects_eq]
    rw [goto_calls] at hk
    split at hk
    · cases hk
      refine ⟨s.manager.kernel, ?_⟩
      have hnone : settingsOf { s with manager := m } s.manager.objects.length = [] :=
        settingsOf_fresh h
      rw [hnone, List.getElem?_concat_length]
      rfl
    · obtain ⟨kernel, hobject⟩ := h.made hk
      refine ⟨kernel, ?_⟩
      rw [List.getElem?_append_left (List.getElem?_eq_some_iff.mp hobject).1]
      exact hobject
  · simp only [goto_manager, hcreates.objects_eq, List.length_append]
    exact Nat.lt_add_right _ (h.settings_lt x hx)

theorem Inv.sets (h : s.Inv) {call : Nat} {fd : Fd} {c : Nat} {setting : Setting}
    (hreturned : s.calls call = .returned fd (some c)) :
    Inv { s with
      manager := { s.manager with objects := s.manager.objects.modify c (·.set setting) }
      settings := s.settings ++ [(c, setting)] } := by
  have hlt : c < s.manager.objects.length := by
    obtain ⟨kernel, hobject⟩ := h.made hreturned
    exact (List.getElem?_eq_some_iff.mp hobject).1
  refine ⟨⟨h.manager.size_ge, h.manager.size_lt, fun {fd c} hc => ?_⟩, h.missed, h.registered,
    fun {k fd d} hk => ?_, fun x hx => ?_⟩
  · rw [List.length_modify]
    exact h.manager.lt_of_contextOf hc
  · obtain ⟨kernel, hobject⟩ := h.made hk
    refine ⟨kernel, ?_⟩
    rw [settingsOf_append, List.getElem?_modify, hobject]
    by_cases heq : c = d
    · simp [heq, List.foldl_append]
    · simp [heq]
  · rw [List.length_modify]
    rcases List.mem_append.mp hx with hx | hx
    · exact h.settings_lt x hx
    · obtain rfl := List.mem_singleton.mp hx
      exact hlt

theorem Inv.of_step (h : s.Inv) {act : Act} (hstep : machine.step s act = some s') : s'.Inv := by
  cases moves_of_step h hstep with
  | finds hidle _ => exact h.finds hidle
  | misses hidle hfd => exact h.misses hidle hfd
  | creates hmissed hcreates => exact h.creates hmissed hcreates
  | sets hreturned => exact h.sets hreturned

/-! ## One context -/

theorem calls_of_step (h : s.Inv) {act : Act} (hstep : machine.step s act = some s') {k : Nat}
    {fd : Fd} {result : Ptr} (hk : s.calls k = .returned fd result) :
    s'.calls k = .returned fd result := by
  cases moves_of_step h hstep with
  | finds hidle _ =>
      refine calls_goto_of_returned (fun fd result hreturned => ?_) hk
      cases hidle.symm.trans hreturned
  | misses hidle _ =>
      refine calls_goto_of_returned (fun fd result hreturned => ?_) hk
      cases hidle.symm.trans hreturned
  | creates hmissed _ =>
      refine calls_goto_of_returned (fun fd result hreturned => ?_) hk
      cases hmissed.symm.trans hreturned
  | sets _ => exact hk

theorem calls_of_run (h : s.Inv) (hrun : machine.run s acts = some s') {k : Nat} {fd : Fd}
    {result : Ptr} (hk : s.calls k = .returned fd result) : s'.calls k = .returned fd result := by
  induction acts generalizing s with
  | nil =>
      cases hrun
      exact hk
  | cons act acts ih =>
      obtain ⟨mid, hstep, hrest⟩ := machine.run_cons_iff.mp hrun
      exact ih (h.of_step hstep) hrest (calls_of_step h hstep hk)

/-- It is enough that the manager still has what has been returned. -/
theorem oneContext_of_registered (h : s.Inv)
    (hregistered : ∀ k (fd : Fd) c, s.calls k = .returned fd (some c) →
      s.manager.contextOf fd.val = some c) : s.OneContext := by
  refine ⟨fun k l fd c d hk hl => ?_, fun k fd c hk => ⟨hregistered k fd c hk, h.made hk⟩⟩
  have hc := hregistered k fd c hk
  have hd := hregistered l fd d hl
  exact Option.some.inj (hc.symm.trans hd)

theorem initial_oneContext (kernel : Kernel) : (initial kernel).OneContext :=
  oneContext_of_registered (initial_inv kernel) fun k fd c hk => by cases hk

theorem OneContext.of_step (h : s.Inv) (hone : s.OneContext) {act : Act}
    (hnone : s.findsNone act = true) (hstep : machine.step s act = some s') : s'.OneContext := by
  refine oneContext_of_registered (h.of_step hstep) fun k fd' c hk => ?_
  cases moves_of_step h hstep with
  | finds _ _ =>
      rw [goto_calls] at hk
      split at hk
      · obtain ⟨rfl, hc⟩ := Progress.returned.inj hk
        exact hc
      · exact (hone.kept k fd' c hk).1
  | misses _ _ =>
      rw [goto_calls] at hk
      split at hk
      · cases hk
      · exact (hone.kept k fd' c hk).1
  | @creates call fd m hmissed hcreates =>
      simp only [findsNone, hmissed, decide_eq_true_eq] at hnone
      show m.contextOf fd'.val = some c
      rw [hcreates.contextOf_eq]
      rw [goto_calls] at hk
      split at hk
      · cases hk
        rw [if_pos rfl]
      · have hc := (hone.kept k fd' c hk).1
        rw [if_neg ?_]
        · exact hc
        · intro heq
          rw [heq, hnone] at hc
          cases hc
  | sets _ => exact (hone.kept k fd' c hk).1

/-- A creation that replaces a context leaves two calls with different ones. -/
theorem two_of_replaced (h : s.Inv) {act : Act} (hfound : s.findsNone act = false)
    (hstep : machine.step s act = some s') :
    ∃ k l fd c d, s'.calls k = .returned fd (some c) ∧ s'.calls l = .returned fd (some d) ∧
      c ≠ d := by
  have hmoves := moves_of_step h hstep
  cases hmoves with
  | finds _ _ => cases hfound
  | misses _ _ => cases hfound
  | sets _ => cases hfound
  | @creates call fd m hmissed hcreates =>
      simp only [findsNone, hmissed, decide_eq_false_iff_not] at hfound
      obtain ⟨c, hc⟩ := Option.ne_none_iff_exists'.mp hfound
      obtain ⟨k, hk⟩ := h.registered hc
      refine ⟨k, call, fd, c, s.manager.objects.length, calls_of_step h hstep hk, ?_, ?_⟩
      · rw [goto_calls, if_pos rfl]
      · exact Nat.ne_of_lt (h.manager.lt_of_contextOf hc)

theorem oneContext_iff_meets (h : s.Inv) (hone : s.OneContext)
    (hrun : machine.run s acts = some s') :
    s'.OneContext ↔ machine.Meets (fun s act => s.findsNone act = true) s acts := by
  induction acts generalizing s with
  | nil =>
      cases hrun
      exact iff_of_true hone trivial
  | cons act acts ih =>
      obtain ⟨mid, hstep, hrest⟩ := machine.run_cons_iff.mp hrun
      cases hnone : s.findsNone act with
      | true =>
          rw [ih (h.of_step hstep) (hone.of_step h hnone hstep) hrest]
          refine ⟨fun hmeets => ⟨hnone, fun next hnext => ?_⟩, fun hmeets => hmeets.2 mid hstep⟩
          obtain rfl : mid = next := Option.some.inj (hstep.symm.trans hnext)
          exact hmeets
      | false =>
          obtain ⟨k, l, fd, c, d, hk, hl, hne⟩ := two_of_replaced h hnone hstep
          refine iff_of_false (fun hlast => ?_) fun hmeets => ?_
          · have hmid := h.of_step hstep
            exact hne (hlast.one k l fd c d (calls_of_run hmid hrest hk)
              (calls_of_run hmid hrest hl))
          · have htrue : s.findsNone act = true := hmeets.1
            rw [hnone] at htrue
            cases htrue

end Shared

/--
All calls for a descriptor return one context, with every setting made on it, as long as
no call creates a context where there is one by now.
-/
theorem one_context_iff (kernel : Kernel) (acts : List Act) (s : Shared)
    (hrun : Shared.machine.run (.initial kernel) acts = some s) :
    s.OneContext ↔
      Shared.machine.Meets (fun s act => s.findsNone act = true) (.initial kernel) acts :=
  Shared.oneContext_iff_meets (Shared.initial_inv kernel) (Shared.initial_oneContext kernel) hrun

def noSockets : Kernel := ⟨fun _ => none, fun _ => false⟩

def three : Fd := ⟨3, by decide, by decide⟩

/-- The second call comes after the first one, and a setting between them. -/
theorem one_context_sample :
    ∃ s, Shared.machine.run (.initial noSockets) [.lookup 0 three, .create 0,
      .set 0 (.userNonBlock true), .lookup 1 three] = some s ∧ s.OneContext := by
  have hruns : (Shared.machine.run (.initial noSockets) [.lookup 0 three, .create 0,
      .set 0 (.userNonBlock true), .lookup 1 three]).isSome = true := by decide
  obtain ⟨s, hrun⟩ := Option.isSome_iff_exists.mp hruns
  exact ⟨s, hrun, (one_context_iff noSockets _ s hrun).mpr (by decide)⟩

/-- Both calls look the descriptor up before one of them creates its context. -/
theorem two_contexts :
    ∃ s, Shared.machine.run (.initial noSockets) [.lookup 0 three, .lookup 1 three, .create 0,
      .set 0 (.userNonBlock true), .create 1] = some s ∧ ¬ s.OneContext := by
  have hcalls : (Shared.machine.run (.initial noSockets) [.lookup 0 three, .lookup 1 three,
      .create 0, .set 0 (.userNonBlock true), .create 1]).map (fun s => (s.calls 0, s.calls 1)) =
      some (.returned three (some 0), .returned three (some 1)) := by decide
  obtain ⟨s, hrun, hcalls⟩ := Option.map_eq_some_iff.mp hcalls
  obtain ⟨hfirst, hsecond⟩ := Prod.mk.inj hcalls
  refine ⟨s, hrun, fun hone => ?_⟩
  have heq := hone.one 0 1 three 0 1 hfirst hsecond
  cases heq

end Qslary.Descriptors
