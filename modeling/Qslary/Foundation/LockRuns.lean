import Mathlib.Data.DFinsupp.WellFounded
import Qslary.Foundation.ScopedLocks

/-!
# Runs of programs with scoped locks

Disciplined programs come to their end in whatever order their threads go on, and what a lock
protects does not change under who has it.  A program that no other thread interferes with does
what it does by itself, or stops with the fault that it stops with.
-/

namespace Qslary.Foundation.ScopedLocks

variable {W V K R F C : Type*}

/-! ## Threads come to an end -/

/-- A thread that is not idle takes a step. -/
def Thread.Follows (t' t : Thread V K R F) : Prop := t.idle = false ∧ ∃ v, t' = t.after v

/-- A program comes to its end if what is behind it does. -/
theorem acc_of_ended (p : Prog V K R F) {frames : List (Frame V K R F)}
    (hback : ∀ r, Acc Thread.Follows (⟨.ended r, frames⟩ : Thread V K R F)) :
    Acc Thread.Follows (⟨p, frames⟩ : Thread V K R F) := by
  induction p generalizing frames with
  | done r => exact hback (.ok r)
  | throw e => exact hback (.error e)
  | act f next ih =>
      refine Acc.intro _ ?_
      rintro _ ⟨-, v, rfl⟩
      exact ih v hback
  | check test next ih =>
      refine Acc.intro _ ?_
      rintro _ ⟨-, v, rfl⟩
      exact ih hback
  | scope mode k body next ihbody ihnext =>
      refine Acc.intro _ ?_
      rintro _ ⟨-, v, rfl⟩
      refine ihbody fun r => Acc.intro _ ?_
      rintro _ ⟨-, v, rfl⟩
      cases r with
      | ok r => exact ihnext r hback
      | error e => exact hback (.error e)
  | attempt body handler next ihbody ihhandler ihnext =>
      refine Acc.intro _ ?_
      rintro _ ⟨-, v, rfl⟩
      refine ihbody fun r => Acc.intro _ ?_
      rintro _ ⟨-, v, rfl⟩
      cases r with
      | ok r => exact ihnext r hback
      | error e =>
          refine ihhandler e fun r => Acc.intro _ ?_
          rintro _ ⟨-, v, rfl⟩
          cases r with
          | ok r => exact ihnext r hback
          | error e => exact hback (.error e)

theorem acc_ended (frames : List (Frame V K R F)) (r : Except R R) :
    Acc Thread.Follows (⟨.ended r, frames⟩ : Thread V K R F) := by
  induction frames generalizing r with
  | nil =>
      refine Acc.intro _ ?_
      rintro _ ⟨hbusy, -⟩
      cases r <;> cases hbusy
  | cons frame frames ih =>
      refine Acc.intro _ ?_
      rintro _ ⟨-, v, rfl⟩
      cases r with
      | ok r => cases frame <;> exact acc_of_ended _ ih
      | error e =>
          cases frame with
          | attempt handler next =>
              refine acc_of_ended _ fun r => Acc.intro _ ?_
              rintro _ ⟨-, v, rfl⟩
              cases r with
              | ok r => exact acc_of_ended _ ih
              | error e => exact ih (.error e)
          | _ => exact ih (.error e)

theorem wellFounded_follows : WellFounded (Thread.Follows (V := V) (K := K) (R := R) (F := F)) :=
  ⟨fun t => acc_of_ended t.now (acc_ended t.frames)⟩

section

variable [DecidableEq W] [DecidableEq K] {X : K → Type*} {rank : K → Nat}
  {part : ∀ k, V → Option (X k)} {fails : F → V → Prop} {s s' : State W V K R F} {w u : W}
  {t : Thread V K R F}

/-! ## Going on -/

omit [DecidableEq W] [DecidableEq K] in
theorem wants_of_not_ready (hbusy : (s.threads w).idle = false) (hready : s.ready w = false) :
    ∃ mode k body next frames, s.threads w = ⟨.scope mode k body next, frames⟩ ∧
      s.available mode k = false := by
  cases ht : s.threads w with
  | mk now frames =>
      rw [ht] at hbusy
      cases now with
      | scope mode k body next =>
          simp only [State.ready, ht] at hready
          exact ⟨mode, k, body, next, frames, rfl, hready⟩
      | _ => simp [State.ready, ht, hbusy] at hready

omit [DecidableEq W] [DecidableEq K] in
theorem exists_holder {mode : Mode} {k : K} (h : s.available mode k = false) :
    ∃ u mode', (u, mode') ∈ s.holders k := by
  cases hholders : s.holders k with
  | nil => cases mode <;> simp [State.available, hholders] at h
  | cons holder rest => exact ⟨holder.1, holder.2, List.mem_cons_self⟩

omit [DecidableEq W] [DecidableEq K] in
theorem Valid.busy_of_holder (h : Valid rank part fails s) {mode : Mode} {k : K}
    (hholder : (u, mode) ∈ s.holders k) : (s.threads u).idle = false := by
  have hheld := (h.held_iff k u mode).mp hholder
  by_contra hidle
  rw [frames_of_idle (by simpa using hidle)] at hheld
  cases hheld

omit [DecidableEq W] [DecidableEq K] in
/-- Who waits for a lock waits for a thread that waits for a greater one at most. -/
theorem Valid.exists_ready (h : Valid rank part fails s) {bound : Nat}
    (hbound : ∀ k, rank k ≤ bound) (hbusy : (s.threads w).idle = false) :
    ∃ u, s.ready u = true := by
  have hwaits : ∀ n w mode k body next frames, bound - rank k = n →
      s.threads w = ⟨.scope mode k body next, frames⟩ → s.available mode k = false →
      ∃ u, s.ready u = true := by
    intro n
    induction n using Nat.strong_induction_on with
    | _ n ih =>
        intro w mode k body next frames hn ht hunavailable
        obtain ⟨u, mode', hholder⟩ := exists_holder hunavailable
        have hheld := (h.held_iff k u mode').mp hholder
        cases hready : s.ready u with
        | true => exact ⟨u, hready⟩
        | false =>
            obtain ⟨mode'', k', body', next', frames', ht', hunavailable'⟩ :=
              wants_of_not_ready (h.busy_of_holder hholder) hready
            have hlt : rank k < rank k' := by
              have hnow := (h.disciplined u).now
              rw [ht'] at hnow hheld
              exact hnow.1 _ hheld
            have htop := hbound k'
            exact ih _ (by omega) u mode'' k' body' next' frames' rfl ht' hunavailable'
  cases hready : s.ready w with
  | true => exact ⟨w, hready⟩
  | false =>
      obtain ⟨mode, k, body, next, frames, ht, hunavailable⟩ := wants_of_not_ready hbusy hready
      exact hwaits _ w mode k body next frames rfl ht hunavailable

/-- A thread that is ready goes on, or stops with a fault that is what it is taken for. -/
theorem Valid.step_of_ready (h : Valid rank part fails s) (code : C → Prog V K R F)
    (hready : s.ready w = true) :
    (∃ s', (machine code).step s (.step w) = some s') ∨
      ∃ f, (machine code).exec s (.step w) = .error f ∧ fails f s.value := by
  cases hfault : s.fault w with
  | none => exact .inl ⟨_, step_iff.mpr ⟨hready, hfault, rfl⟩⟩
  | some f =>
      refine .inr ⟨f, by simp only [machine, hfault], ?_⟩
      have hnow := (h.disciplined w).now
      cases ht : s.threads w with
      | mk now frames =>
          rw [ht] at hnow
          simp only [State.fault, ht] at hfault
          cases now with
          | check test next => exact hnow.1 f s.value hfault
          | _ => cases hfault

omit [DecidableEq W] [DecidableEq K] in
theorem busy_of_ready (hready : s.ready w = true) : (s.threads w).idle = false := by
  cases ht : s.threads w with
  | mk now frames =>
      cases now with
      | done r => cases frames <;> simp_all [State.ready, Thread.idle]
      | throw e => cases frames <;> simp_all [State.ready, Thread.idle]
      | _ => rfl

omit [DecidableEq K] in
theorem wellFounded_threads [Finite W] :
    WellFounded fun threads' threads : W → Thread V K R F =>
      ∃ w, (threads w).idle = false ∧
        ∃ v, threads' = Function.update threads w ((threads w).after v) := by
  refine Subrelation.wf ?_ (Pi.Lex.wellFounded (WellOrderingRel (α := W)) fun _ =>
    wellFounded_follows (V := V) (K := K) (R := R) (F := F))
  rintro threads' threads ⟨w, hbusy, v, rfl⟩
  refine ⟨w, fun u hu => Function.update_of_ne ?_ _ _, ?_⟩
  · rintro rfl
    exact irrefl u hu
  · rw [Function.update_self]
    exact ⟨hbusy, v, rfl⟩

/-- Without new calls the threads cannot take steps for ever. -/
theorem wellFounded_steps [Finite W] (code : C → Prog V K R F) :
    WellFounded fun s' s : State W V K R F => ∃ w, (machine code).step s (.step w) = some s' := by
  refine Subrelation.wf ?_ (InvImage.wf State.threads wellFounded_threads)
  rintro s' s ⟨w, hstep⟩
  obtain ⟨hready, -, rfl⟩ := step_iff.mp hstep
  exact ⟨w, busy_of_ready hready, s.value, threads_advance s w⟩

theorem not_endless [Finite W] (code : C → Prog V K R F) (path : Nat → State W V K R F) :
    ¬ ∀ n, ∃ w, (machine code).step (path n) (.step w) = some (path (n + 1)) := by
  intro hpath
  have hnone : ∀ s, ∀ n, path n ≠ s := by
    intro s
    have hacc := (wellFounded_steps code).apply s
    induction hacc with
    | intro s _ ih =>
        rintro n rfl
        exact ih _ (hpath n) (n + 1) rfl
  exact hnone _ 0 rfl

/-! ## What is protected -/

theorem value_advance (s : State W V K R F) (w : W) :
    (s.advance w).value =
      match (s.threads w).now with
      | .act f _ => f s.value
      | _ => s.value := by
  unfold State.advance
  cases s.threads w with
  | mk now frames =>
      cases now with
      | done r | throw e =>
          cases frames with
          | nil => rfl
          | cons frame frames => cases frame <;> rfl
      | _ => rfl

theorem threads_advance_of_ne (hne : u ≠ w) (s : State W V K R F) :
    (s.advance w).threads u = s.threads u := by
  rw [threads_advance, Function.update_of_ne hne]

/-- Only who has a lock for itself writes what the lock protects. -/
theorem Valid.part_advance (h : Valid rank part fails s) (hne : u ≠ w) {k : K} {mode : Mode}
    {x : X k} (hholder : (u, mode) ∈ s.holders k) (hx : part k s.value = some x) :
    part k (s.advance w).value = some x := by
  have hthread := (h.disciplined w).now
  have hnot : (k, Mode.exclusive) ∉ held (s.threads w).frames := by
    intro hheld
    have halone := h.alone k w ((h.held_iff k w .exclusive).mpr hheld)
    rw [halone, List.mem_singleton] at hholder
    exact hne (congrArg Prod.fst hholder)
  rw [value_advance]
  cases hnow : (s.threads w).now with
  | act f next =>
      rw [hnow] at hthread
      exact hthread.1 k s.value x hnot hx
  | _ => exact hx

/-- While a thread in a scope waits for its turn, what its lock protects stays as it is. -/
theorem Valid.part_of_run {code : C → Prog V K R F}
    (hcode : ∀ c, (code c).Disciplined rank part fails []) (h : Valid rank part fails s) {k : K}
    {mode : Mode} {x : X k} (hholder : (u, mode) ∈ s.holders k) (hx : part k s.value = some x)
    {acts : List (Act W C)} (hothers : ∀ a ∈ acts, a ≠ .step u ∧ ∀ c, a ≠ .call u c)
    (hrun : (machine code).run s acts = some s') :
    s'.threads u = s.threads u ∧ part k s'.value = some x := by
  have hstep : ∀ {t a t'}, (Valid rank part fails t ∧ t.threads u = s.threads u ∧
        part k t.value = some x) → (a ≠ .step u ∧ ∀ c, a ≠ .call u c) →
      (machine code).step t a = some t' →
        Valid rank part fails t' ∧ t'.threads u = s.threads u ∧ part k t'.value = some x := by
    rintro t a t' ⟨ht, hthread, hpart⟩ hother hstep
    have hafter := ht.step hcode hstep
    cases a with
    | call w c =>
        obtain ⟨-, hexec⟩ := (machine code).step_eq_some_iff.mp hstep
        cases hexec
        have hne : u ≠ w := fun heq => hother.2 c (by rw [heq])
        exact ⟨hafter, (threads_goto_of_ne hne _ _).trans hthread, hpart⟩
    | step w =>
        obtain ⟨-, -, rfl⟩ := step_iff.mp hstep
        have hne : u ≠ w := fun heq => hother.1 (by rw [heq])
        have hheld : (u, mode) ∈ t.holders k := by
          rw [ht.held_iff, hthread]
          exact (h.held_iff k u mode).mp hholder
        exact ⟨hafter, (threads_advance_of_ne hne t).trans hthread,
          ht.part_advance hne hheld hpart⟩
  exact (Machine.invariant_of_meets hstep ⟨h, rfl, hx⟩
    (Machine.meets_of_forall fun _ a ha => hothers a ha) hrun).2

end

namespace Prog

section

variable {v : V} {body : Prog V K R F} {next : R → Prog V K R F}

/-- A condition that holds of what a program makes of a value, if it makes something of it. -/
def Keeps (I : V → Prop) (p : Prog V K R F) (v : V) : Prop :=
  ∀ v' r, p.eval v = .ok (v', r) → I v'

variable {I : V → Prop}

theorem keeps_scope {mode : Mode} {k : K} (hbody : body.Keeps I v)
    (hnext : ∀ r v', I v' → (next r).Keeps I v') : (scope mode k body next).Keeps I v := by
  intro v' r heval
  rw [eval] at heval
  rcases hmid : body.eval v with f | ⟨mid, e | r'⟩ <;> rw [hmid] at heval
  · cases heval
  · cases heval
    exact hbody _ _ hmid
  · exact hnext r' mid (hbody _ _ hmid) _ _ heval

theorem keeps_attempt {handler : R → Prog V K R F} (hbody : body.Keeps I v)
    (hhandler : ∀ e v', I v' → (handler e).Keeps I v')
    (hnext : ∀ r v', I v' → (next r).Keeps I v') : (attempt body handler next).Keeps I v := by
  intro v' r heval
  rw [eval] at heval
  rcases hmid : body.eval v with f | ⟨mid, e | r'⟩ <;> rw [hmid] at heval
  · cases heval
  · dsimp only at heval
    have hhandled := hhandler e mid (hbody _ _ hmid)
    rcases hmid' : (handler e).eval mid with f | ⟨mid', e' | r'⟩ <;> rw [hmid'] at heval
    · cases heval
    · cases heval
      exact hhandled _ _ hmid'
    · exact hnext r' mid' (hhandled _ _ hmid') _ _ heval
  · exact hnext r' mid (hbody _ _ hmid) _ _ heval

end

variable {X : K → Type*} {rank : K → Nat} {part : ∀ k, V → Option (X k)} {fails : F → V → Prop}

/-- What a lock protects stays over a program within a scope of that lock that is not exclusive: a
scope inside takes a lock of a greater rank, and so another one. -/
theorem Disciplined.part_eval {p : Prog V K R F} {around : List (K × Mode)}
    (h : p.Disciplined rank part fails around) {k : K} {mode : Mode} (hin : (k, mode) ∈ around)
    (hshared : (k, .exclusive) ∉ around) {x : X k} {v : V} (hx : part k v = some x) :
    p.Keeps (fun v => part k v = some x) v := by
  induction p generalizing around v with
  | done r =>
      intro v' r' heval
      cases heval
      exact hx
  | throw e =>
      intro v' r' heval
      cases heval
      exact hx
  | act f next ih => exact ih v (h.2 v) hin hshared (h.1 k v x hshared hx)
  | check test next ih =>
      intro v' r' heval
      rw [eval] at heval
      cases htest : test v with
      | some f =>
          rw [htest] at heval
          cases heval
      | none =>
          rw [htest] at heval
          exact ih h.2 hin hshared hx v' r' heval
  | scope mode' k' body next ihbody ihnext =>
      have hother : (k, .exclusive) ∉ (k', mode') :: around := by
        intro hmem
        cases hmem with
        | head => exact Nat.lt_irrefl _ (h.1 _ hin)
        | tail _ hmem => exact hshared hmem
      exact keeps_scope (ihbody h.2.1 (List.mem_cons_of_mem _ hin) hother hx)
        fun r v' hx' => ihnext r (h.2.2 r) hin hshared hx'
  | attempt body handler next ihbody ihhandler ihnext =>
      exact keeps_attempt (ihbody h.1 hin hshared hx)
        (fun e v' hx' => ihhandler e (h.2.1 e) hin hshared hx')
        fun r v' hx' => ihnext r (h.2.2 r) hin hshared hx'

end Prog

/-! ## What a program does -/

/-- Without other threads a program returns, with a value and a reply that `Q` holds of. -/
def Prog.Leads (p : Prog V K R F) (v : V) (Q : V → R → Prop) : Prop :=
  ∃ v' r, p.eval v = .ok (v', .ok r) ∧ Q v' r

/-- What is seen of the value becomes what there is to be; if there is nothing to be, the program
stops with a fault. -/
def Prog.Comes {B : Type*} (l : V → B) (p : Prog V K R F) (v : V) : Option B → Prop
  | some b => p.Leads v fun v' _ => l v' = b
  | none => ∃ f, p.eval v = .error f

namespace Prog

variable {P Q : V → R → Prop} {v : V}

theorem leads_done {r : R} (h : Q v r) : (done r : Prog V K R F).Leads v Q := ⟨v, r, rfl, h⟩

theorem leads_act {f : V → V} {next : V → Prog V K R F} (h : (next v).Leads (f v) Q) :
    (act f next).Leads v Q := h

theorem leads_scope {mode : Mode} {k : K} {body : Prog V K R F} {next : R → Prog V K R F}
    (h : body.Leads v P) (hnext : ∀ v' r, P v' r → (next r).Leads v' Q) :
    (scope mode k body next).Leads v Q := by
  obtain ⟨v', r, hbody, hP⟩ := h
  obtain ⟨v'', r', hrest, hQ⟩ := hnext v' r hP
  refine ⟨v'', r', ?_, hQ⟩
  rw [eval, hbody]
  exact hrest

theorem leads_andThen {p : Prog V K R F} {more : R → Prog V K R F} (h : p.Leads v P)
    (hmore : ∀ v' r, P v' r → (more r).Leads v' Q) : (p.andThen more).Leads v Q := by
  obtain ⟨v', r, hp, hP⟩ := h
  obtain ⟨v'', r', hrest, hQ⟩ := hmore v' r hP
  refine ⟨v'', r', ?_, hQ⟩
  rw [eval_andThen, hp]
  exact hrest

theorem Leads.mono {p : Prog V K R F} (h : p.Leads v P) (himp : ∀ v' r, P v' r → Q v' r) :
    p.Leads v Q := by
  obtain ⟨v', r, hp, hP⟩ := h
  exact ⟨v', r, hp, himp v' r hP⟩

/-- What holds whatever it comes to may be had besides. -/
theorem Leads.and {I : V → Prop} {p : Prog V K R F} (h : p.Leads v P) (hI : p.Keeps I v) :
    p.Leads v fun v' r => P v' r ∧ I v' := by
  obtain ⟨v', r, hp, hP⟩ := h
  exact ⟨v', r, hp, hP, hI _ _ hp⟩

section

variable {A B : Type*} {l : V → B} {o : Option B} {p : Prog V K R F}

theorem comes_done {r : R} {b : B} (h : l v = b) : (done r : Prog V K R F).Comes l v (some b) :=
  leads_done h

theorem comes_act {f : V → V} {next : V → Prog V K R F} (h : (next v).Comes l (f v) o) :
    (act f next).Comes l v o := by
  cases o <;> exact h

theorem comes_check {test : V → Option F} (h : test v = none → p.Comes l v o)
    (hfault : ∀ f, test v = some f → o = none) : (check test p).Comes l v o := by
  cases htest : test v with
  | some f =>
      rw [hfault f htest]
      exact ⟨f, by rw [eval, htest]⟩
  | none =>
      have heval : (check test p).eval v = p.eval v := by rw [eval, htest]
      have hp := h htest
      cases o with
      | some b => simpa only [Comes, Leads, heval] using hp
      | none => simpa only [Comes, heval] using hp

theorem comes_ite {cond : Prop} [Decidable cond] {yes no : Prog V K R F} {o' : Option B}
    (hyes : cond → yes.Comes l v o) (hno : ¬cond → no.Comes l v o') :
    (if cond then yes else no).Comes l v (if cond then o else o') := by
  by_cases h : cond
  · rw [if_pos h, if_pos h]
    exact hyes h
  · rw [if_neg h, if_neg h]
    exact hno h

theorem comes_andThen_of_leads {more : R → Prog V K R F} (h : p.Leads v P)
    (hmore : ∀ v' r, P v' r → (more r).Comes l v' o) : (p.andThen more).Comes l v o := by
  obtain ⟨v', r, hp, hP⟩ := h
  have hrest := hmore v' r hP
  have heval : (p.andThen more).eval v = (more r).eval v' := by rw [eval_andThen, hp]
  cases o with
  | some b => simpa only [Comes, Leads, heval] using hrest
  | none => simpa only [Comes, heval] using hrest

theorem comes_andThen {more : R → Prog V K R F} {g : B → Option B} (h : p.Comes l v o)
    (hmore : ∀ v' r, o = some (l v') → (more r).Comes l v' (g (l v'))) :
    (p.andThen more).Comes l v (o.bind g) := by
  cases o with
  | some b =>
      refine comes_andThen_of_leads h fun v' r hv' => ?_
      rw [Option.bind_some, ← hv']
      exact hmore v' r (congrArg some hv'.symm)
  | none =>
      obtain ⟨f, hf⟩ := h
      exact ⟨f, by rw [eval_andThen, hf]⟩

theorem comes_scope {mode : Mode} {k : K} {next : R → Prog V K R F} {g : B → Option B}
    (h : p.Comes l v o) (hnext : ∀ v' r, o = some (l v') → (next r).Comes l v' (g (l v'))) :
    (scope mode k p next).Comes l v (o.bind g) := by
  have heval : (scope mode k p next).eval v = (p.andThen next).eval v := by
    rw [eval, eval_andThen]
  have hthen := comes_andThen h hnext
  cases hbind : o.bind g with
  | some b => simpa only [hbind, Comes, Leads, heval] using hthen
  | none => simpa only [hbind, Comes, heval] using hthen

/-- Programs in turn, each of which does something to what is seen of the value. -/
theorem comes_each {code : A → Prog V K R F} {as : List A} {next : List R → Prog V K R F}
    {g : B → A → Option B} {more : B → Option B}
    (hcode : ∀ a ∈ as, ∀ v, (code a).Comes l v (g (l v) a))
    (hnext : ∀ rs v', as.foldlM g (l v) = some (l v') → (next rs).Comes l v' (more (l v'))) :
    (each code as next).Comes l v ((as.foldlM g (l v)).bind more) := by
  induction as generalizing v next with
  | nil => exact hnext [] v rfl
  | cons a as ih =>
      rw [List.foldlM_cons, Option.bind_eq_bind, Option.bind_assoc]
      refine comes_andThen (hcode a List.mem_cons_self v) fun v' r hv' => ?_
      refine ih (fun b hb => hcode b (List.mem_cons_of_mem a hb)) fun rs v'' hv'' => ?_
      refine hnext (r :: rs) v'' ?_
      rw [List.foldlM_cons, hv']
      exact hv''

/-- Programs in turn that all return. -/
theorem leads_each {code : A → Prog V K R F} {as : List A} {next : List R → Prog V K R F}
    {g : B → A → Option B} {b : B} (hcode : ∀ a ∈ as, ∀ v, (code a).Comes l v (g (l v) a))
    (has : as.foldlM g (l v) = some b) (hnext : ∀ rs v', l v' = b → (next rs).Leads v' Q) :
    (each code as next).Leads v Q := by
  induction as generalizing v next with
  | nil => exact hnext [] v (Option.some_inj.mp has)
  | cons a as ih =>
      rw [List.foldlM_cons] at has
      obtain ⟨mid, hmid, hrest⟩ := Option.bind_eq_some_iff.mp has
      have hfirst := hcode a List.mem_cons_self v
      rw [hmid] at hfirst
      refine leads_andThen hfirst fun v' r hv' => ?_
      exact ih (fun b hb => hcode b (List.mem_cons_of_mem a hb)) (hv' ▸ hrest) fun rs => hnext _

end

end Prog

section

variable [DecidableEq W] [DecidableEq K] {X : K → Type*} {rank : K → Nat}
  {part : ∀ k, V → Option (X k)} {fails : F → V → Prop} {s s' : State W V K R F} {w u : W}
  {t : Thread V K R F}

/-! ## A thread alone -/

variable {code : C → Prog V K R F} {s'' : State W V K R F} {t' : Thread V K R F} {v v' : V}

/-- A thread gets on by itself. -/
structure Alone (code : C → Prog V K R F) (rank : K → Nat) (part : ∀ k, V → Option (X k))
    (fails : F → V → Prop) (s : State W V K R F) (w : W) (t : Thread V K R F) (v : V)
    (s' : State W V K R F) : Prop where
  reachable : ∃ acts, (∀ a ∈ acts, a = .step w) ∧ (machine code).run s acts = some s'
  valid : Valid rank part fails s'
  threads : s'.threads = Function.update s.threads w t
  value : s'.value = v

/-- A thread by itself has come to the end of a program, or is to stop with a fault. -/
def Outcome (code : C → Prog V K R F) (rank : K → Nat) (part : ∀ k, V → Option (X k))
    (fails : F → V → Prop) (s : State W V K R F) (w : W) (frames : List (Frame V K R F)) :
    Except F (V × Except R R) → Prop
  | .ok (v, r) => ∃ s', Alone code rank part fails s w ⟨.ended r, frames⟩ v s'
  | .error f => ∃ t v s', Alone code rank part fails s w t v s' ∧ s'.ready w = true ∧
      s'.fault w = some f

theorem Alone.self (hfirst : Alone code rank part fails s w t v s') : s'.threads w = t := by
  rw [hfirst.threads, Function.update_self]

theorem Alone.idle (hfirst : Alone code rank part fails s w t v s')
    (hidle : ∀ u, u ≠ w → (s.threads u).idle = true) :
    ∀ u, u ≠ w → (s'.threads u).idle = true := by
  intro u hu
  rw [hfirst.threads, Function.update_of_ne hu]
  exact hidle u hu

theorem Alone.refl (h : Valid rank part fails s) (ht : s.threads w = t) :
    Alone code rank part fails s w t s.value s where
  reachable := ⟨[], nofun, rfl⟩
  valid := h
  threads := by rw [← ht, Function.update_eq_self]
  value := rfl

theorem Alone.trans (hfirst : Alone code rank part fails s w t v s')
    (hsecond : Alone code rank part fails s' w t' v' s'') :
    Alone code rank part fails s w t' v' s'' where
  reachable := by
    obtain ⟨first, hfirst, hrun⟩ := hfirst.reachable
    obtain ⟨second, hsecond, hrun'⟩ := hsecond.reachable
    refine ⟨first ++ second, fun a ha => ?_, (machine code).run_append_iff.mpr ⟨_, hrun, hrun'⟩⟩
    exact (List.mem_append.mp ha).elim (hfirst a) (hsecond a)
  valid := hsecond.valid
  threads := by rw [hsecond.threads, hfirst.threads, Function.update_idem]
  value := hsecond.value

theorem Alone.advance (hfirst : Alone code rank part fails s w t v s') (hready : s'.ready w = true)
    (hfault : s'.fault w = none) :
    Alone code rank part fails s w (t.after v) (s'.advance w).value (s'.advance w) :=
  hfirst.trans {
    reachable := ⟨[.step w], by simp,
      (machine code).run_single_iff.mpr (step_iff.mpr ⟨hready, hfault, rfl⟩)⟩
    valid := hfirst.valid.advance hready
    threads := by rw [threads_advance, hfirst.self, hfirst.value]
    value := rfl }

/-- A thread leaves the innermost frame. -/
theorem Alone.back {r : Except R R} {frame : Frame V K R F} {frames : List (Frame V K R F)}
    (h : Alone code rank part fails s w ⟨.ended r, frame :: frames⟩ v s') :
    Alone code rank part fails s w (frame.back r frames) v (s'.advance w) := by
  have ht := h.self
  have hready : s'.ready w = true := by
    cases r <;> simp [State.ready, ht, Prog.ended, Thread.idle]
  have hfault : s'.fault w = none := by
    cases r <;> simp [State.fault, ht, Prog.ended]
  have hnext := h.advance hready hfault
  have hvalue : (s'.advance w).value = v := by
    rw [value_advance, ht, ← h.value]
    cases r <;> rfl
  rw [hvalue] at hnext
  cases r <;> exact hnext

omit [DecidableEq K] in
theorem Valid.available (h : Valid rank part fails s)
    (hidle : ∀ u, u ≠ w → (s.threads u).idle = true) {mode : Mode} {k : K} {body : Prog V K R F}
    {next : R → Prog V K R F} {frames : List (Frame V K R F)}
    (ht : s.threads w = ⟨.scope mode k body next, frames⟩) : s.available mode k = true := by
  by_contra hunavailable
  obtain ⟨u, mode', hholder⟩ := exists_holder (by simpa using hunavailable)
  by_cases hu : u = w
  · subst hu
    have hheld := (h.held_iff k u mode').mp hholder
    have hnow := (h.disciplined u).now
    rw [ht] at hnow hheld
    exact (hnow.1 _ hheld).false
  · have hbusy := h.busy_of_holder hholder
    rw [hidle u hu] at hbusy
    cases hbusy

/-- By itself a thread makes of the value what its program does. -/
theorem Alone.outcome (hidle : ∀ u, u ≠ w → (s.threads u).idle = true) {p : Prog V K R F}
    {frames : List (Frame V K R F)} (h : Alone code rank part fails s w ⟨p, frames⟩ v s') :
    Outcome code rank part fails s w frames (p.eval v) := by
  induction p generalizing v s' frames with
  | done r => exact ⟨s', h⟩
  | throw e => exact ⟨s', h⟩
  | act f next ih =>
      have hready : s'.ready w = true := by simp [State.ready, h.self, Thread.idle]
      have hnext := h.advance hready (by simp [State.fault, h.self])
      rw [value_advance, h.self, h.value] at hnext
      exact ih v hnext
  | check test next ih =>
      have hready : s'.ready w = true := by simp [State.ready, h.self, Thread.idle]
      have hfault : s'.fault w = test v := by simp only [State.fault, h.self, h.value]
      rw [Prog.eval]
      cases htest : test v with
      | some f => exact ⟨_, _, s', h, hready, hfault.trans htest⟩
      | none =>
          have hnext := h.advance hready (hfault.trans htest)
          rw [value_advance, h.self, h.value] at hnext
          exact ih hnext
  | scope mode k body next ihbody ihnext =>
      have hready : s'.ready w = true := by
        simp only [State.ready, h.self, h.valid.available (h.idle hidle) h.self]
      have hnext := h.advance hready (by simp [State.fault, h.self])
      rw [value_advance, h.self, h.value] at hnext
      have hbody : Outcome code rank part fails s w (.scope mode k next :: frames) (body.eval v) :=
        ihbody hnext
      rw [Prog.eval]
      rcases hres : body.eval v with f | ⟨v', e | r⟩ <;> rw [hres] at hbody
      · exact hbody
      · obtain ⟨mid, hmid⟩ := hbody
        exact ⟨_, hmid.back⟩
      · obtain ⟨mid, hmid⟩ := hbody
        exact ihnext r hmid.back
  | attempt body handler next ihbody ihhandler ihnext =>
      have hready : s'.ready w = true := by simp [State.ready, h.self, Thread.idle]
      have hnext := h.advance hready (by simp [State.fault, h.self])
      rw [value_advance, h.self, h.value] at hnext
      have hbody : Outcome code rank part fails s w (.attempt handler next :: frames)
        (body.eval v) := ihbody hnext
      rw [Prog.eval]
      rcases hres : body.eval v with f | ⟨v', e | r⟩ <;> rw [hres] at hbody
      · exact hbody
      · obtain ⟨mid, hmid⟩ := hbody
        have hhandler : Outcome code rank part fails s w (.goOn next :: frames)
          ((handler e).eval v') := ihhandler e hmid.back
        dsimp only
        rcases hres' : (handler e).eval v' with f | ⟨v'', e' | r⟩ <;> rw [hres'] at hhandler
        · exact hhandler
        · obtain ⟨mid', hmid'⟩ := hhandler
          exact ⟨_, hmid'.back⟩
        · obtain ⟨mid', hmid'⟩ := hhandler
          exact ihnext r hmid'.back
      · obtain ⟨mid, hmid⟩ := hbody
        exact ihnext r hmid.back

/-- A call of a thread with no other call under way. -/
theorem Valid.outcome {code : C → Prog V K R F}
    (hcode : ∀ c, (code c).Disciplined rank part fails []) (h : Valid rank part fails s)
    (hidle : ∀ u, (s.threads u).idle = true) (w : W) (c : C) :
    (machine code).step s (.call w c) = some (s.goto w ⟨code c, []⟩) ∧
      Outcome code rank part fails (s.goto w ⟨code c, []⟩) w [] ((code c).eval s.value) := by
  have hcall : (machine code).step s (.call w c) = some (s.goto w ⟨code c, []⟩) :=
    (machine code).step_eq_some_iff.mpr ⟨hidle w, rfl⟩
  have hothers : ∀ u, u ≠ w → ((s.goto w ⟨code c, []⟩).threads u).idle = true := by
    intro u hu
    rw [threads_goto_of_ne hu]
    exact hidle u
  exact ⟨hcall, Alone.outcome hothers
    (Alone.refl (h.step hcode hcall) (threads_goto_self s w ⟨code c, []⟩))⟩

/-- A call that leads somewhere does so with no other call under way. -/
theorem Valid.exists_run_of_leads {code : C → Prog V K R F}
    (hcode : ∀ c, (code c).Disciplined rank part fails []) (h : Valid rank part fails s)
    (hidle : ∀ u, (s.threads u).idle = true) (w : W) {c : C} {P : V → R → Prop}
    (hc : (code c).Leads s.value P) :
    ∃ acts s', (∀ a ∈ acts, a = .step w) ∧
      (machine code).run s (.call w c :: acts) = some s' ∧ (∃ r, P s'.value r) ∧
      ∀ u, (s'.threads u).idle = true := by
  obtain ⟨hcall, houtcome⟩ := h.outcome hcode hidle w c
  obtain ⟨v', r, heval, hP⟩ := hc
  rw [heval] at houtcome
  obtain ⟨s', hs'⟩ := houtcome
  obtain ⟨acts, hacts, hrun⟩ := hs'.reachable
  refine ⟨acts, s', hacts, (machine code).run_cons_iff.mpr ⟨_, hcall, hrun⟩,
    ⟨r, hs'.value ▸ hP⟩, fun u => ?_⟩
  by_cases hu : u = w
  · rw [hu, hs'.self]
    rfl
  · rw [hs'.threads, Function.update_of_ne hu, threads_goto_of_ne hu]
    exact hidle u

/-- A call that stops with a fault does so with no other call under way. -/
theorem Valid.exists_fault {code : C → Prog V K R F}
    (hcode : ∀ c, (code c).Disciplined rank part fails []) (h : Valid rank part fails s)
    (hidle : ∀ u, (s.threads u).idle = true) (w : W) {c : C} {f : F}
    (hc : (code c).eval s.value = .error f) :
    ∃ acts s', (∀ a ∈ acts, a = .step w) ∧
      (machine code).run s (.call w c :: acts) = some s' ∧
      (machine code).exec s' (.step w) = .error f ∧ fails f s'.value := by
  obtain ⟨hcall, houtcome⟩ := h.outcome hcode hidle w c
  rw [hc] at houtcome
  obtain ⟨t, v, s', hs', hready, hfault⟩ := houtcome
  obtain ⟨acts, hacts, hrun⟩ := hs'.reachable
  have hexec : (machine code).exec s' (.step w) = .error f := by simp only [machine, hfault]
  refine ⟨acts, s', hacts, (machine code).run_cons_iff.mpr ⟨_, hcall, hrun⟩, hexec, ?_⟩
  rcases hs'.valid.step_of_ready code hready with ⟨s'', hstep⟩ | ⟨f', hexec', hfails⟩
  · rw [(step_iff.mp hstep).2.1] at hfault
    cases hfault
  · rw [hexec, Except.error.injEq] at hexec'
    exact hexec' ▸ hfails

end

end Qslary.Foundation.ScopedLocks
