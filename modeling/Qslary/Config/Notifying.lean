import Mathlib.Data.List.Chain
import Mathlib.Data.List.Nodup
import Qslary.Config.Model
import Qslary.Foundation.Transition

/-!
# Listeners under concurrent writers

`setValue` compares and tells its listeners under the read lock, which several calls
hold at once, and stores under the write lock.  What the listeners have been told and
what is stored agree if the calls that change the value do not overlap, and no listener
throws.
-/

namespace Qslary.Config

open Qslary.Foundation

variable {T : Type}

/-- Where a call of `setValue` stands; before its store it holds no lock. -/
inductive Pc (T : Type) where
  | idle
  | notifying (v : T) (cbs : List (Nat × OnChangeCb T))
  | storing (v : T)

def Pc.isIdle : Pc T → Bool
  | .idle => true
  | _ => false

def Pc.isNotifying : Pc T → Bool
  | .notifying _ _ => true
  | _ => false

/-- What a listener has been told last, if it has been told anything. -/
def Pc.owes (current : T) (key : Nat) : Pc T → T
  | .idle => current
  | .notifying v cbs => if key ∈ cbs.map Prod.fst then current else v
  | .storing v => v

/-- A variable, `n` threads that call it, and what its listeners have been told. -/
structure Writers (n : Nat) (T : Type) where
  var : ConfigVar T
  funId : Nat
  pc : Fin n → Pc T
  told : List (Nat × T × T)

inductive Act (n : Nat) (T : Type) where
  | compare (thread : Fin n) (v : T)
  | notify (thread : Fin n)
  | unlock (thread : Fin n)
  | store (thread : Fin n)
  | addListener (cb : OnChangeCb T)
  | delListener (key : Nat)

namespace Writers

variable {n : Nat}

def goto (s : Writers n T) (thread : Fin n) (pc : Pc T) : Writers n T :=
  { s with pc := Function.update s.pc thread pc }

/-- The write lock can be taken. -/
def unlocked (s : Writers n T) : Bool :=
  decide (∀ thread, (s.pc thread).isNotifying = false)

def guard (s : Writers n T) : Act n T → Bool
  | .compare thread _ => (s.pc thread).isIdle
  | .notify thread =>
      match s.pc thread with
      | .notifying _ (_ :: _) => true
      | _ => false
  | .unlock thread =>
      match s.pc thread with
      | .notifying _ [] => true
      | _ => false
  | .store thread =>
      match s.pc thread with
      | .storing _ => s.unlocked
      | _ => false
  | .addListener _ => s.unlocked
  | .delListener _ => s.unlocked

def exec [DecidableEq T] (s : Writers n T) : Act n T → Writers n T
  | .compare thread v =>
      if v = s.var.mVal then s else s.goto thread (.notifying v s.var.mCbs)
  | .notify thread =>
      match s.pc thread with
      | .notifying v (cb :: cbs) =>
          let pc := if cb.2 s.var.mVal v then .notifying v cbs else .idle
          { s with told := s.told ++ [(cb.1, s.var.mVal, v)] }.goto thread pc
      | _ => s
  | .unlock thread =>
      match s.pc thread with
      | .notifying v [] => s.goto thread (.storing v)
      | _ => s
  | .store thread =>
      match s.pc thread with
      | .storing v => { s with var := { s.var with mVal := v } }.goto thread .idle
      | _ => s
  | .addListener cb =>
      { s with
        funId := s.funId + 1
        var := { s.var with mCbs := s.var.mCbs ++ [(s.funId + 1, cb)] } }
  | .delListener key =>
      { s with var := { s.var with mCbs := s.var.mCbs.filter fun cb => cb.1 ≠ key } }

def machine [DecidableEq T] : Machine (Writers n T) (Act n T) Empty :=
  ⟨guard, fun s act => .ok (s.exec act)⟩

/-- The pairs that one listener has been told, in their order. -/
def toldTo (s : Writers n T) (key : Nat) : List (T × T) :=
  (s.told.filter fun entry => entry.1 = key).map Prod.snd

/-- Each old value is the new one of the pair before. -/
def Chained (pairs : List (T × T)) : Prop := pairs.IsChain fun d e => e.1 = d.2

/-- A listener has been told the changes one after the other, up to the value stored. -/
def Agrees (s : Writers n T) (key : Nat) : Prop :=
  Chained (s.toldTo key) ∧ ∀ d, (s.toldTo key).getLast? = some d → d.2 = s.var.mVal

/-- A change begins after the one before has been stored, and its listeners return. -/
def orderly [DecidableEq T] (s : Writers n T) : Act n T → Bool
  | .compare _ v => v = s.var.mVal || decide (∀ thread, (s.pc thread).isIdle = true)
  | .notify thread =>
      match s.pc thread with
      | .notifying v (cb :: _) => cb.2 s.var.mVal v
      | _ => true
  | _ => true

end Writers

/-- The calls of a variable begin with its listeners, none of whom has been told anything. -/
structure Registered (T : Type) where
  var : ConfigVar T
  funId : Nat
  keys_le : ∀ cb ∈ var.mCbs, cb.1 ≤ funId
  keys_nodup : (var.mCbs.map Prod.fst).Nodup

def Registered.start (r : Registered T) (n : Nat) : Writers n T :=
  ⟨r.var, r.funId, fun _ => .idle, []⟩

namespace Writers

/-! ## One call at a time -/

variable {n : Nat} {s s' : Writers n T} {p : Pc T} {thread : Fin n}

/-- At most one call is past its comparison; `p` is where it stands. -/
structure InvAt (s : Writers n T) (p : Pc T) : Prop where
  keys_le : ∀ cb ∈ s.var.mCbs, cb.1 ≤ s.funId
  keys_nodup : (s.var.mCbs.map Prod.fst).Nodup
  told_le : ∀ entry ∈ s.told, entry.1 ≤ s.funId
  active : ∀ k, s.pc k = .idle ∨ s.pc k = p ∧ ∀ l, l ≠ k → s.pc l = .idle
  settled : (∀ k, s.pc k = .idle) → p = .idle
  suffix : ∀ v cbs, p = .notifying v cbs → cbs <:+ s.var.mCbs
  chained : ∀ cb ∈ s.var.mCbs, Chained (s.toldTo cb.1)
  last : ∀ cb ∈ s.var.mCbs, ∀ d, (s.toldTo cb.1).getLast? = some d → d.2 = p.owes s.var.mVal cb.1

theorem InvAt.of_active (h : s.InvAt p) (hpc : s.pc thread ≠ .idle) :
    s.pc thread = p ∧ ∀ l, l ≠ thread → s.pc l = .idle :=
  (h.active thread).resolve_left hpc

theorem pc_goto (s : Writers n T) (thread : Fin n) (pc : Pc T) (l : Fin n) :
    (s.goto thread pc).pc l = if l = thread then pc else s.pc l :=
  Function.update_apply _ _ _ _

theorem active_goto (hidle : ∀ l, l ≠ thread → s.pc l = .idle) (pc : Pc T) (k : Fin n) :
    (s.goto thread pc).pc k = .idle ∨
      (s.goto thread pc).pc k = pc ∧ ∀ l, l ≠ k → (s.goto thread pc).pc l = .idle := by
  by_cases hk : k = thread
  · subst hk
    refine .inr ⟨?_, fun l hl => ?_⟩
    · rw [pc_goto, if_pos rfl]
    · rw [pc_goto, if_neg hl]
      exact hidle l hl
  · refine .inl ?_
    rw [pc_goto, if_neg hk]
    exact hidle k hk

theorem settled_goto {pc : Pc T} (h : ∀ k, (s.goto thread pc).pc k = .idle) : pc = .idle := by
  have := h thread
  rwa [pc_goto, if_pos rfl] at this

theorem InvAt.compare (h : s.InvAt p) (hidle : ∀ k, s.pc k = .idle) (v : T) :
    (s.goto thread (.notifying v s.var.mCbs)).InvAt (.notifying v s.var.mCbs) := by
  refine ⟨h.keys_le, h.keys_nodup, h.told_le, active_goto (fun l _ => hidle l) _, settled_goto,
    fun w cbs heq => ?_, h.chained, fun cb hcb d hd => ?_⟩
  · cases heq
    exact List.suffix_rfl
  · have hlast := h.last cb hcb d hd
    rw [h.settled hidle] at hlast
    have hmem : cb.1 ∈ s.var.mCbs.map Prod.fst := List.mem_map_of_mem hcb
    rw [Pc.owes, if_pos hmem]
    exact hlast

theorem toldTo_append (s : Writers n T) (key : Nat) (d : T × T) (other : Nat) :
    toldTo { s with told := s.told ++ [(key, d)] } other =
      if key = other then s.toldTo other ++ [d] else s.toldTo other := by
  simp only [toldTo, List.filter_append, List.map_append]
  by_cases h : key = other
  · simp [h]
  · simp [h]

theorem InvAt.notify {v : T} {cb : Nat × OnChangeCb T} {cbs : List (Nat × OnChangeCb T)}
    (h : s.InvAt (.notifying v (cb :: cbs))) (hidle : ∀ l, l ≠ thread → s.pc l = .idle) :
    ({ s with told := s.told ++ [(cb.1, s.var.mVal, v)] }.goto thread (.notifying v cbs)).InvAt
      (.notifying v cbs) := by
  have hsuffix := h.suffix v _ rfl
  have hcb : cb ∈ s.var.mCbs := hsuffix.subset List.mem_cons_self
  have hnodup : cb.1 ∉ cbs.map Prod.fst := by
    have := h.keys_nodup.sublist (hsuffix.sublist.map Prod.fst)
    rw [List.map_cons, List.nodup_cons] at this
    exact this.1
  refine ⟨h.keys_le, h.keys_nodup, ?_, active_goto hidle _, settled_goto, fun w more heq => ?_,
    fun other hother => ?_, fun other hother d hd => ?_⟩
  · intro entry hentry
    rcases List.mem_append.mp hentry with hentry | hentry
    · exact h.told_le entry hentry
    · obtain rfl := List.mem_singleton.mp hentry
      exact h.keys_le cb hcb
  · cases heq
    exact (List.suffix_cons cb cbs).trans hsuffix
  · show Chained (toldTo { s with told := s.told ++ [(cb.1, s.var.mVal, v)] } other.1)
    rw [toldTo_append]
    split
    · rename_i heq
      refine List.isChain_append.mpr ⟨h.chained other hother, List.isChain_singleton _, ?_⟩
      intro d hd e he
      cases he
      have hlast := h.last other hother d hd
      rw [Pc.owes, List.map_cons, if_pos (heq ▸ List.mem_cons_self)] at hlast
      exact hlast.symm
    · exact h.chained other hother
  · have hd : (toldTo { s with told := s.told ++ [(cb.1, s.var.mVal, v)] } other.1).getLast? =
        some d := hd
    rw [toldTo_append] at hd
    rw [Pc.owes]
    split at hd
    · rename_i heq
      rw [List.getLast?_concat] at hd
      cases hd
      rw [if_neg (heq ▸ hnodup)]
    · rename_i hne
      have hlast := h.last other hother d hd
      rw [Pc.owes, List.map_cons] at hlast
      have hmem : other.1 ∈ cb.1 :: cbs.map Prod.fst ↔ other.1 ∈ cbs.map Prod.fst := by
        rw [List.mem_cons, or_iff_right fun heq => hne heq.symm]
      simp only [hmem] at hlast
      exact hlast

theorem InvAt.unlock {v : T} (h : s.InvAt (.notifying v []))
    (hidle : ∀ l, l ≠ thread → s.pc l = .idle) : (s.goto thread (.storing v)).InvAt (.storing v) :=
  ⟨h.keys_le, h.keys_nodup, h.told_le, active_goto hidle _, settled_goto, nofun, h.chained, h.last⟩

theorem InvAt.store {v : T} (h : s.InvAt (.storing v))
    (hidle : ∀ l, l ≠ thread → s.pc l = .idle) :
    ({ s with var := { s.var with mVal := v } }.goto thread .idle).InvAt .idle :=
  ⟨h.keys_le, h.keys_nodup, h.told_le, active_goto hidle _, fun _ => rfl, nofun, h.chained, h.last⟩

theorem not_notifying (h : s.InvAt p) (hunlocked : s.unlocked = true) (v : T)
    (cbs : List (Nat × OnChangeCb T)) : p ≠ .notifying v cbs := by
  rintro rfl
  have hnone := of_decide_eq_true hunlocked
  have hidle : ∀ k, s.pc k = .idle := by
    intro k
    rcases h.active k with hk | ⟨hk, -⟩
    · exact hk
    · have := hnone k
      rw [hk] at this
      cases this
  cases h.settled hidle

theorem InvAt.addListener (h : s.InvAt p) (hunlocked : s.unlocked = true) (cb : OnChangeCb T) :
    InvAt { s with
      funId := s.funId + 1
      var := { s.var with mCbs := s.var.mCbs ++ [(s.funId + 1, cb)] } } p := by
  have hfresh : s.toldTo (s.funId + 1) = [] := by
    rw [toldTo, List.map_eq_nil_iff, List.filter_eq_nil_iff]
    intro entry hentry heq
    have hle := h.told_le entry hentry
    have heq := of_decide_eq_true heq
    omega
  refine ⟨fun other hother => ?_, ?_, fun entry hentry => ?_, h.active, h.settled,
    fun v cbs heq => absurd heq (not_notifying h hunlocked v cbs), fun other hother => ?_,
    fun other hother d hd => ?_⟩
  · rcases List.mem_append.mp hother with hother | hother
    · exact Nat.le_succ_of_le (h.keys_le other hother)
    · obtain rfl := List.mem_singleton.mp hother
      exact Nat.le_refl _
  · rw [List.map_append, List.nodup_append]
    refine ⟨h.keys_nodup, List.nodup_singleton _, fun key hkey other hother => ?_⟩
    obtain ⟨old, hold, rfl⟩ := List.mem_map.mp hkey
    obtain rfl := List.mem_singleton.mp hother
    have := h.keys_le old hold
    exact Nat.ne_of_lt (Nat.lt_succ_of_le this)
  · exact Nat.le_succ_of_le (h.told_le entry hentry)
  · rcases List.mem_append.mp hother with hother | hother
    · exact h.chained other hother
    · obtain rfl := List.mem_singleton.mp hother
      show Chained (s.toldTo (s.funId + 1))
      rw [hfresh]
      exact List.isChain_nil
  · rcases List.mem_append.mp hother with hother | hother
    · exact h.last other hother d hd
    · obtain rfl := List.mem_singleton.mp hother
      have hd : (s.toldTo (s.funId + 1)).getLast? = some d := hd
      rw [hfresh] at hd
      cases hd

theorem InvAt.delListener (h : s.InvAt p) (hunlocked : s.unlocked = true) (key : Nat) :
    InvAt { s with var := { s.var with mCbs := s.var.mCbs.filter fun cb => cb.1 ≠ key } } p := by
  have hsub : ∀ cb, cb ∈ s.var.mCbs.filter (fun cb => cb.1 ≠ key) → cb ∈ s.var.mCbs :=
    fun cb hcb => (List.mem_filter.mp hcb).1
  refine ⟨fun cb hcb => h.keys_le cb (hsub cb hcb), ?_, h.told_le, h.active, h.settled,
    fun v cbs heq => absurd heq (not_notifying h hunlocked v cbs),
    fun cb hcb => h.chained cb (hsub cb hcb), fun cb hcb => h.last cb (hsub cb hcb)⟩
  exact h.keys_nodup.sublist (List.filter_sublist.map Prod.fst)

theorem isIdle_iff {pc : Pc T} : pc.isIdle = true ↔ pc = .idle := by
  cases pc with
  | idle => exact iff_of_true rfl rfl
  | notifying v cbs => exact iff_of_false nofun nofun
  | storing v => exact iff_of_false nofun nofun

theorem InvAt.of_step [DecidableEq T] {act : Act n T} (h : s.InvAt p) (horderly : s.orderly act = true)
    (hstep : machine.step s act = some s') : ∃ p', s'.InvAt p' := by
  obtain ⟨hguard, hexec⟩ := machine.step_eq_some_iff.mp hstep
  simp only [machine, Except.ok.injEq] at hguard hexec
  subst hexec
  cases act with
  | compare thread v =>
      simp only [exec]
      split
      · exact ⟨p, h⟩
      · rename_i hne
        simp only [orderly, hne, decide_false, Bool.false_or, decide_eq_true_eq] at horderly
        exact ⟨_, h.compare (fun k => isIdle_iff.mp (horderly k)) v⟩
  | notify thread =>
      simp only [guard, exec, orderly] at hguard horderly ⊢
      split at hguard
      · rename_i v cb cbs hpc
        simp only [hpc] at horderly ⊢
        obtain ⟨rfl, hidle⟩ := h.of_active fun heq => by cases hpc.symm.trans heq
        rw [hpc] at h
        rw [if_pos horderly]
        exact ⟨_, h.notify hidle⟩
      · cases hguard
  | unlock thread =>
      simp only [guard, exec] at hguard ⊢
      split at hguard
      · rename_i v hpc
        obtain ⟨rfl, hidle⟩ := h.of_active fun heq => by cases hpc.symm.trans heq
        rw [hpc] at h
        exact ⟨_, h.unlock hidle⟩
      · cases hguard
  | store thread =>
      simp only [guard, exec] at hguard ⊢
      split at hguard
      · rename_i v hpc
        obtain ⟨rfl, hidle⟩ := h.of_active fun heq => by cases hpc.symm.trans heq
        rw [hpc] at h
        exact ⟨_, h.store hidle⟩
      · cases hguard
  | addListener cb => exact ⟨p, h.addListener hguard cb⟩
  | delListener key => exact ⟨p, h.delListener hguard key⟩

theorem start_invAt (r : Registered T) : (r.start n).InvAt .idle :=
  ⟨r.keys_le, r.keys_nodup, nofun, fun _ => .inl rfl, fun _ => rfl, nofun,
    fun _ _ => List.isChain_nil, nofun⟩

end Writers

/--
In a run of orderly calls, whenever no call is in progress, each listener has been told
a chain of changes that ends with the value stored.
-/
theorem listeners_agree (n : Nat) (r : Registered T) [DecidableEq T] (acts : List (Act n T))
    (s : Writers n T) (hrun : Writers.machine.run (r.start n) acts = some s)
    (horderly : Writers.machine.Meets (fun s act => s.orderly act = true) (r.start n) acts)
    (hidle : ∀ thread, s.pc thread = .idle) : ∀ cb ∈ s.var.mCbs, s.Agrees cb.1 := by
  have hpreserved : ∀ {s : Writers n T} {act : Act n T} {s' : Writers n T},
      (∃ p, s.InvAt p) → s.orderly act = true → Writers.machine.step s act = some s' →
        ∃ p, s'.InvAt p := by
    rintro s act s' ⟨p, h⟩ horderly hstep
    exact h.of_step horderly hstep
  have hinv : ∃ p, s.InvAt p :=
    Machine.invariant_of_meets hpreserved ⟨_, Writers.start_invAt r⟩ horderly hrun
  obtain ⟨p, h⟩ := hinv
  obtain rfl := h.settled hidle
  exact fun cb hcb => ⟨h.chained cb hcb, h.last cb hcb⟩

/-- A number with one listener. -/
def watched : Registered Nat where
  var := ⟨[], 0, [(1, fun _ _ => true)]⟩
  funId := 1
  keys_le := by decide
  keys_nodup := by decide

def call {n : Nat} (thread : Fin n) (v : Nat) : List (Act n Nat) :=
  [.compare thread v, .notify thread, .unlock thread, .store thread]

/-- Two threads, one after the other. -/
theorem listeners_agree_sample :
    ∃ s, Writers.machine.run (watched.start 2) (call 0 5 ++ call 1 7) = some s ∧
      ∀ cb ∈ s.var.mCbs, s.Agrees cb.1 := by
  have hidle : (Writers.machine.run (watched.start 2) (call 0 5 ++ call 1 7)).map
      (fun s => decide (∀ thread, (s.pc thread).isIdle = true)) = some true := by decide
  obtain ⟨s, hrun, hidle⟩ := Option.map_eq_some_iff.mp hidle
  exact ⟨s, hrun, listeners_agree 2 watched _ s hrun (by decide)
    fun thread => Writers.isIdle_iff.mp (of_decide_eq_true hidle thread)⟩

/-- Both threads tell the listener before one of them stores. -/
theorem listeners_disagree :
    ∃ s, Writers.machine.run (watched.start 2) [.compare 0 5, .compare 1 7, .notify 0, .notify 1,
      .unlock 0, .unlock 1, .store 1, .store 0] = some s ∧
      (∀ thread, s.pc thread = .idle) ∧ ¬ s.Agrees 1 := by
  have hlast : (Writers.machine.run (watched.start 2) [.compare 0 5, .compare 1 7, .notify 0,
      .notify 1, .unlock 0, .unlock 1, .store 1, .store 0]).map
      (fun s => (decide (∀ thread, (s.pc thread).isIdle = true), s.toldTo 1, s.var.mVal)) =
      some (true, [(0, 5), (0, 7)], 5) := by decide
  obtain ⟨s, hrun, hlast⟩ := Option.map_eq_some_iff.mp hlast
  obtain ⟨hidle, htold, hvalue⟩ : _ ∧ _ ∧ _ := by simpa only [Prod.mk.injEq] using hlast
  refine ⟨s, hrun, fun thread => Writers.isIdle_iff.mp (of_decide_eq_true hidle thread), ?_⟩
  rintro ⟨-, hagrees⟩
  have := hagrees (0, 7) (by rw [htold]; rfl)
  omega

end Qslary.Config
