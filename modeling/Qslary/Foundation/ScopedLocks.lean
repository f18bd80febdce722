import Mathlib.Data.List.Nodup
import Mathlib.Logic.Function.Basic
import Qslary.Foundation.Transition

/-!
# Programs with scoped locks

Threads run programs that take locks for the extent of a scope, which ends as well when it is
left by an exception; a fault ends all of them.  In a disciplined program every scope inside of
another takes a greater lock, and what a lock protects is written by who has it alone; threads
that run such programs have the locks of the scopes they are in, and no others.
-/

namespace Qslary.Foundation.ScopedLocks

variable {W V K R F C : Type*}

inductive Mode where
  | shared
  | exclusive
  deriving DecidableEq

/-- An action is told what it has found; a check stops at a fault in what it has found; a scope, and
what is attempted, tells the program behind it what it has come to. -/
inductive Prog (V K R F : Type*) where
  | done (r : R)
  | throw (e : R)
  | act (f : V → V) (next : V → Prog V K R F)
  | check (test : V → Option F) (next : Prog V K R F)
  | scope (mode : Mode) (k : K) (body : Prog V K R F) (next : R → Prog V K R F)
  | attempt (body : Prog V K R F) (handler next : R → Prog V K R F)

/-- What a thread goes back to. -/
inductive Frame (V K R F : Type*) where
  | scope (mode : Mode) (k : K) (next : R → Prog V K R F)
  | attempt (handler next : R → Prog V K R F)
  | goOn (next : R → Prog V K R F)

structure Thread (V K R F : Type*) where
  now : Prog V K R F
  frames : List (Frame V K R F)

structure State (W V K R F : Type*) where
  threads : W → Thread V K R F
  holders : K → List (W × Mode)
  value : V

inductive Act (W C : Type*) where
  | call (w : W) (c : C)
  | step (w : W)

namespace Prog

def read (next : V → Prog V K R F) : Prog V K R F := .act id next

def ended : Except R R → Prog V K R F
  | .ok r => .done r
  | .error e => .throw e

def andThen : Prog V K R F → (R → Prog V K R F) → Prog V K R F
  | .done r, more => more r
  | .throw e, _ => .throw e
  | .act f next, more => .act f fun v => (next v).andThen more
  | .check test next, more => .check test (next.andThen more)
  | .scope mode k body next, more => .scope mode k body fun r => (next r).andThen more
  | .attempt body handler next, more => .attempt body handler fun r => (next r).andThen more

/-- A program for each element, one after the other. -/
def each {A : Type*} (code : A → Prog V K R F) : List A → (List R → Prog V K R F) → Prog V K R F
  | [], next => next []
  | a :: as, next => (code a).andThen fun r => each code as fun rs => next (r :: rs)

/-- What a program makes of a value, and what it comes to, or the fault that it stops with. -/
def eval : Prog V K R F → V → Except F (V × Except R R)
  | .done r, v => .ok (v, .ok r)
  | .throw e, v => .ok (v, .error e)
  | .act f next, v => (next v).eval (f v)
  | .check test next, v =>
      match test v with
      | some f => .error f
      | none => next.eval v
  | .scope _ _ body next, v =>
      match body.eval v with
      | .ok (v, .ok r) => (next r).eval v
      | .ok (v, .error e) => .ok (v, .error e)
      | .error f => .error f
  | .attempt body handler next, v =>
      match body.eval v with
      | .ok (v, .ok r) => (next r).eval v
      | .ok (v, .error e) =>
          match (handler e).eval v with
          | .ok (v, .ok r) => (next r).eval v
          | .ok (v, .error e) => .ok (v, .error e)
          | .error f => .error f
      | .error f => .error f

theorem eval_andThen (p : Prog V K R F) (more : R → Prog V K R F) (v : V) :
    (p.andThen more).eval v =
      match p.eval v with
      | .ok (v, .ok r) => (more r).eval v
      | .ok (v, .error e) => .ok (v, .error e)
      | .error f => .error f := by
  induction p generalizing v with
  | done r => rfl
  | throw e => rfl
  | act f next ih => exact ih v (f v)
  | check test next ih =>
      rw [andThen, eval, eval]
      cases test v with
      | some f => rfl
      | none => exact ih v
  | scope mode k body next _ ih =>
      rw [andThen, eval, eval]
      rcases body.eval v with f | ⟨v, e | r⟩
      · rfl
      · rfl
      · exact ih r v
  | attempt body handler next _ _ ih =>
      rw [andThen, eval, eval]
      rcases body.eval v with f | ⟨v, e | r⟩
      · rfl
      · dsimp only
        rcases (handler e).eval v with f | ⟨v, e | r⟩
        · rfl
        · rfl
        · exact ih r v
      · exact ih r v

end Prog

/-- Where a thread goes on behind a frame, or where it is handled that it was left. -/
def Frame.back : Frame V K R F → Except R R → List (Frame V K R F) → Thread V K R F
  | .scope _ _ next, .ok r, frames | .attempt _ next, .ok r, frames | .goOn next, .ok r, frames =>
      ⟨next r, frames⟩
  | .attempt handler next, .error e, frames => ⟨handler e, .goOn next :: frames⟩
  | .scope _ _ _, .error e, frames | .goOn _, .error e, frames => ⟨.throw e, frames⟩

namespace Thread

/-- No call is under way. -/
def idle : Thread V K R F → Bool
  | ⟨.done _, []⟩ | ⟨.throw _, []⟩ => true
  | _ => false

/-- Where a thread stands after a step, if it finds a value. -/
def after (v : V) : Thread V K R F → Thread V K R F
  | ⟨.act _ next, frames⟩ => ⟨next v, frames⟩
  | ⟨.check _ next, frames⟩ => ⟨next, frames⟩
  | ⟨.scope mode k body next, frames⟩ => ⟨body, .scope mode k next :: frames⟩
  | ⟨.attempt body handler next, frames⟩ => ⟨body, .attempt handler next :: frames⟩
  | ⟨.done r, frame :: frames⟩ => frame.back (.ok r) frames
  | ⟨.throw e, frame :: frames⟩ => frame.back (.error e) frames
  | ⟨.done r, []⟩ => ⟨.done r, []⟩
  | ⟨.throw e, []⟩ => ⟨.throw e, []⟩

end Thread

/-- The scopes a thread is in, the innermost first. -/
def held : List (Frame V K R F) → List (K × Mode)
  | [] => []
  | .scope mode k _ :: frames => (k, mode) :: held frames
  | .attempt _ _ :: frames | .goOn _ :: frames => held frames

namespace State

def available (s : State W V K R F) (mode : Mode) (k : K) : Bool :=
  match mode with
  | .exclusive => (s.holders k).isEmpty
  | .shared => (s.holders k).all fun holder => holder.2 = .shared

def ready (s : State W V K R F) (w : W) : Bool :=
  match s.threads w with
  | ⟨.scope mode k _ _, _⟩ => s.available mode k
  | t => !t.idle

variable [DecidableEq W] [DecidableEq K]

def goto (s : State W V K R F) (w : W) (t : Thread V K R F) : State W V K R F :=
  { s with threads := Function.update s.threads w t }

def lock (s : State W V K R F) (w : W) (mode : Mode) (k : K) : State W V K R F :=
  { s with holders := Function.update s.holders k ((w, mode) :: s.holders k) }

def unlock (s : State W V K R F) (w : W) (mode : Mode) (k : K) : State W V K R F :=
  { s with holders := Function.update s.holders k ((s.holders k).erase (w, mode)) }

/-- What a step does to locks and to the value; an exception leaves scopes as well. -/
def effect (s : State W V K R F) (w : W) : Thread V K R F → State W V K R F
  | ⟨.act f _, _⟩ => { s with value := f s.value }
  | ⟨.scope mode k _ _, _⟩ => s.lock w mode k
  | ⟨.done _, .scope mode k _ :: _⟩ | ⟨.throw _, .scope mode k _ :: _⟩ => s.unlock w mode k
  | _ => s

/-- What is wrong with the value, for a thread that is to look. -/
def fault (s : State W V K R F) (w : W) : Option F :=
  match s.threads w with
  | ⟨.check test _, _⟩ => test s.value
  | _ => none

def advance (s : State W V K R F) (w : W) : State W V K R F :=
  (s.effect w (s.threads w)).goto w ((s.threads w).after s.value)

end State

def machine [DecidableEq W] [DecidableEq K] (code : C → Prog V K R F) :
    Machine (State W V K R F) (Act W C) F where
  guard s
    | .call w _ => (s.threads w).idle
    | .step w => s.ready w
  exec s
    | .call w c => .ok (s.goto w ⟨code c, []⟩)
    | .step w =>
        match s.fault w with
        | some f => .error f
        | none => .ok (s.advance w)

def start [Inhabited R] (v : V) : State W V K R F := ⟨fun _ => ⟨.done default, []⟩, fun _ => [], v⟩

/-! ## Discipline -/

/-- What there is of each lock's part stays, but for the locks that are held exclusively. -/
def Keeps {X : K → Type*} (part : ∀ k, V → Option (X k)) (around : List (K × Mode)) (f : V → V) :
    Prop :=
  ∀ k v x, (k, .exclusive) ∉ around → part k v = some x → part k (f v) = some x

/-- Scopes take locks of a greater rank than those around them, and what a lock protects is
written in its exclusive scopes only; the faults of its checks are what they are taken for. -/
def Prog.Disciplined {X : K → Type*} (rank : K → Nat) (part : ∀ k, V → Option (X k))
    (fails : F → V → Prop) : List (K × Mode) → Prog V K R F → Prop
  | _, .done _ | _, .throw _ => True
  | around, .act f next => Keeps part around f ∧ ∀ v, (next v).Disciplined rank part fails around
  | around, .check test next =>
      (∀ f v, test v = some f → fails f v) ∧ next.Disciplined rank part fails around
  | around, .scope mode k body next =>
      (∀ l ∈ around, rank l.1 < rank k) ∧ body.Disciplined rank part fails ((k, mode) :: around) ∧
        ∀ r, (next r).Disciplined rank part fails around
  | around, .attempt body handler next =>
      body.Disciplined rank part fails around ∧
        (∀ e, (handler e).Disciplined rank part fails around) ∧
          ∀ r, (next r).Disciplined rank part fails around

def FramesDisciplined {X : K → Type*} (rank : K → Nat) (part : ∀ k, V → Option (X k))
    (fails : F → V → Prop) : List (Frame V K R F) → Prop
  | [] => True
  | .scope _ k next :: frames =>
      (∀ l ∈ held frames, rank l.1 < rank k) ∧
        (∀ r, (next r).Disciplined rank part fails (held frames)) ∧
          FramesDisciplined rank part fails frames
  | .attempt handler next :: frames =>
      (∀ e, (handler e).Disciplined rank part fails (held frames)) ∧
        (∀ r, (next r).Disciplined rank part fails (held frames)) ∧
          FramesDisciplined rank part fails frames
  | .goOn next :: frames =>
      (∀ r, (next r).Disciplined rank part fails (held frames)) ∧
        FramesDisciplined rank part fails frames

structure Thread.Disciplined {X : K → Type*} (rank : K → Nat) (part : ∀ k, V → Option (X k))
    (fails : F → V → Prop) (t : Thread V K R F) : Prop where
  now : t.now.Disciplined rank part fails (held t.frames)
  frames : FramesDisciplined rank part fails t.frames

structure Valid {X : K → Type*} (rank : K → Nat) (part : ∀ k, V → Option (X k))
    (fails : F → V → Prop) (s : State W V K R F) : Prop where
  disciplined : ∀ w, (s.threads w).Disciplined rank part fails
  held_iff : ∀ k w mode, (w, mode) ∈ s.holders k ↔ (k, mode) ∈ held (s.threads w).frames
  nodup : ∀ k, (s.holders k).Nodup
  alone : ∀ k w, (w, Mode.exclusive) ∈ s.holders k → s.holders k = [(w, .exclusive)]

section

variable {X : K → Type*} {rank : K → Nat} {part : ∀ k, V → Option (X k)}
  {fails : F → V → Prop}

theorem keeps_id (around : List (K × Mode)) : Keeps part around id := fun _ _ _ _ h => h

theorem Prog.Disciplined.andThen {p : Prog V K R F} {more : R → Prog V K R F}
    {around : List (K × Mode)} (h : p.Disciplined rank part fails around)
    (hmore : ∀ r, (more r).Disciplined rank part fails around) :
    (p.andThen more).Disciplined rank part fails around := by
  induction p with
  | done r => exact hmore r
  | throw e => exact trivial
  | act f next ih => exact ⟨h.1, fun v => ih v (h.2 v)⟩
  | check test next ih => exact ⟨h.1, ih h.2⟩
  | scope mode k body next _ ih => exact ⟨h.1, h.2.1, fun r => ih r (h.2.2 r)⟩
  | attempt body handler next _ _ ih => exact ⟨h.1, h.2.1, fun r => ih r (h.2.2 r)⟩

theorem Prog.disciplined_each {A : Type*} {code : A → Prog V K R F} {as : List A}
    {next : List R → Prog V K R F} {around : List (K × Mode)}
    (hcode : ∀ a ∈ as, (code a).Disciplined rank part fails around)
    (hnext : ∀ rs, (next rs).Disciplined rank part fails around) :
    (Prog.each code as next).Disciplined rank part fails around := by
  induction as generalizing next with
  | nil => exact hnext []
  | cons a as ih =>
      have htail : ∀ r, (Prog.each code as fun rs => next (r :: rs)).Disciplined rank part fails
          around := fun r =>
        ih (fun b hb => hcode b (List.mem_cons_of_mem a hb)) fun rs => hnext (r :: rs)
      exact (hcode a List.mem_cons_self).andThen htail

/-- A disciplined thread stays one. -/
theorem Thread.Disciplined.after {t : Thread V K R F} (h : t.Disciplined rank part fails) (v : V) :
    (t.after v).Disciplined rank part fails := by
  obtain ⟨now, frames⟩ := t
  obtain ⟨hnow, hframes⟩ := h
  cases now with
  | act f next => exact ⟨hnow.2 v, hframes⟩
  | check test next => exact ⟨hnow.2, hframes⟩
  | scope mode k body next => exact ⟨hnow.2.1, hnow.1, hnow.2.2, hframes⟩
  | attempt body handler next => exact ⟨hnow.1, hnow.2.1, hnow.2.2, hframes⟩
  | done r =>
      cases frames with
      | nil => exact ⟨trivial, trivial⟩
      | cons frame frames =>
          cases frame with
          | scope mode k next => exact ⟨hframes.2.1 r, hframes.2.2⟩
          | attempt handler next => exact ⟨hframes.2.1 r, hframes.2.2⟩
          | goOn next => exact ⟨hframes.1 r, hframes.2⟩
  | throw e =>
      cases frames with
      | nil => exact ⟨trivial, trivial⟩
      | cons frame frames =>
          cases frame with
          | scope mode k next => exact ⟨trivial, hframes.2.2⟩
          | attempt handler next => exact ⟨hframes.1 e, hframes.2.1, hframes.2.2⟩
          | goOn next => exact ⟨trivial, hframes.2⟩

theorem valid_start [Inhabited R] (v : V) : Valid rank part fails (start v : State W V K R F) where
  disciplined _ := ⟨trivial, trivial⟩
  held_iff _ _ _ := by simp [start, held]
  nodup _ := List.nodup_nil
  alone := by simp [start]

theorem frames_of_idle {t : Thread V K R F} (h : t.idle = true) : t.frames = [] := by
  unfold Thread.idle at h
  split at h
  · rfl
  · rfl
  · cases h

end

section

variable [DecidableEq W] [DecidableEq K] {X : K → Type*} {rank : K → Nat}
  {part : ∀ k, V → Option (X k)} {fails : F → V → Prop} {s s' : State W V K R F} {w u : W}
  {t : Thread V K R F}

omit [DecidableEq K] in
theorem threads_goto_self (s : State W V K R F) (w : W) (t : Thread V K R F) :
    (s.goto w t).threads w = t := Function.update_self ..

omit [DecidableEq K] in
theorem threads_goto_of_ne (hne : u ≠ w) (s : State W V K R F) (t : Thread V K R F) :
    (s.goto w t).threads u = s.threads u := Function.update_of_ne hne ..

omit [DecidableEq K] in
theorem disciplined_goto (h : ∀ u, (s.threads u).Disciplined rank part fails)
    (ht : t.Disciplined rank part fails) (u : W) :
    ((s.goto w t).threads u).Disciplined rank part fails := by
  by_cases hne : u = w
  · rw [hne, threads_goto_self]
    exact ht
  · rw [threads_goto_of_ne hne]
    exact h u

omit [DecidableEq K] in
/-- A thread goes on in the scopes in which it is. -/
theorem Valid.goto (h : Valid rank part fails s) (ht : t.Disciplined rank part fails)
    (hheld : held t.frames = held (s.threads w).frames) (v : V) :
    Valid rank part fails ({ s with value := v }.goto w t) where
  disciplined := disciplined_goto h.disciplined ht
  held_iff k u mode := by
    refine (h.held_iff k u mode).trans ?_
    by_cases hne : u = w
    · subst hne
      simp only [threads_goto_self, hheld]
    · simp only [threads_goto_of_ne hne]
  nodup := h.nodup
  alone := h.alone

/-- A lock that is available is taken by a thread that does not have it. -/
theorem Valid.lock (h : Valid rank part fails s) {mode : Mode} {k : K}
    (ht : t.Disciplined rank part fails)
    (hheld : held t.frames = (k, mode) :: held (s.threads w).frames)
    (hrank : ∀ l ∈ held (s.threads w).frames, rank l.1 < rank k)
    (havailable : s.available mode k = true) :
    Valid rank part fails ((s.lock w mode k).goto w t) := by
  have hnew : ∀ mode', (w, mode') ∉ s.holders k := by
    intro mode' hmem
    exact (hrank _ ((h.held_iff k w mode').mp hmem)).false
  have hself : ((s.lock w mode k).goto w t).holders k = (w, mode) :: s.holders k :=
    Function.update_self ..
  have hother : ∀ k', k' ≠ k → ((s.lock w mode k).goto w t).holders k' = s.holders k' :=
    fun k' hne => Function.update_of_ne hne ..
  refine ⟨disciplined_goto h.disciplined ht, fun k' u mode' => ?_, fun k' => ?_,
    fun k' u hmem => ?_⟩
  · have hthread : (k', mode') ∈ held (((s.lock w mode k).goto w t).threads u).frames ↔
        (u = w ∧ k' = k ∧ mode' = mode) ∨ (u, mode') ∈ s.holders k' := by
      rw [h.held_iff]
      by_cases hne : u = w
      · subst hne
        rw [threads_goto_self, hheld]
        simp
      · rw [threads_goto_of_ne hne]
        simp only [hne, false_and, false_or]
        rfl
    rw [hthread]
    by_cases hk : k' = k
    · subst hk
      rw [hself]
      simp
    · rw [hother k' hk]
      simp [hk]
  · by_cases hk : k' = k
    · subst hk
      rw [hself]
      exact List.nodup_cons.mpr ⟨hnew mode, h.nodup k'⟩
    · rw [hother k' hk]
      exact h.nodup k'
  · by_cases hk : k' = k
    · subst hk
      rw [hself] at hmem ⊢
      cases mode with
      | exclusive =>
          have hnone : s.holders k' = [] := List.isEmpty_iff.mp havailable
          rw [hnone] at hmem ⊢
          rw [List.mem_singleton.mp hmem]
      | shared =>
          rcases List.mem_cons.mp hmem with heq | hmem
          · cases heq
          · have hshared := List.all_eq_true.mp havailable _ hmem
            cases of_decide_eq_true hshared
    · rw [hother k' hk] at hmem ⊢
      exact h.alone k' u hmem

/-- The innermost scope is left. -/
theorem Valid.unlock (h : Valid rank part fails s) {mode : Mode} {k : K}
    (ht : t.Disciplined rank part fails)
    (hheld : held (s.threads w).frames = (k, mode) :: held t.frames)
    (hrank : ∀ l ∈ held t.frames, rank l.1 < rank k) :
    Valid rank part fails ((s.unlock w mode k).goto w t) := by
  have hold : ∀ mode', (k, mode') ∉ held t.frames := fun mode' hmem => (hrank _ hmem).false
  have hself : ((s.unlock w mode k).goto w t).holders k = (s.holders k).erase (w, mode) :=
    Function.update_self ..
  have hother : ∀ k', k' ≠ k → ((s.unlock w mode k).goto w t).holders k' = s.holders k' :=
    fun k' hne => Function.update_of_ne hne ..
  refine ⟨disciplined_goto h.disciplined ht, fun k' u mode' => ?_, fun k' => ?_,
    fun k' u hmem => ?_⟩
  · by_cases hne : u = w
    · subst hne
      rw [threads_goto_self]
      have hbefore := h.held_iff k' u mode'
      rw [hheld] at hbefore
      by_cases hk : k' = k
      · subst hk
        rw [hself, (h.nodup k').mem_erase_iff, hbefore]
        simp [hold]
      · rw [hother k' hk, hbefore]
        simp [hk]
    · rw [threads_goto_of_ne hne]
      refine Iff.trans ?_ (h.held_iff k' u mode')
      by_cases hk : k' = k
      · subst hk
        rw [hself]
        exact List.mem_erase_of_ne fun heq => hne (congrArg Prod.fst heq)
      · rw [hother k' hk]
  · by_cases hk : k' = k
    · subst hk
      rw [hself]
      exact (h.nodup k').erase _
    · rw [hother k' hk]
      exact h.nodup k'
  · by_cases hk : k' = k
    · subst hk
      rw [hself] at hmem ⊢
      have hbefore := h.alone k' u (List.mem_of_mem_erase hmem)
      rw [hbefore] at hmem ⊢
      refine List.erase_of_not_mem fun heq => ?_
      rw [List.mem_singleton.mp heq, List.erase_cons_head] at hmem
      cases hmem
    · rw [hother k' hk] at hmem ⊢
      exact h.alone k' u hmem

theorem threads_advance (s : State W V K R F) (w : W) :
    (s.advance w).threads = Function.update s.threads w ((s.threads w).after s.value) := by
  have heffect : (s.effect w (s.threads w)).threads = s.threads := by
    unfold State.effect
    split <;> rfl
  rw [State.advance, State.goto, heffect]

theorem Valid.advance (h : Valid rank part fails s) (hready : s.ready w = true) :
    Valid rank part fails (s.advance w) := by
  have hafter := (h.disciplined w).after s.value
  have hthread := h.disciplined w
  unfold State.advance
  cases ht : s.threads w with
  | mk now frames =>
      have hheld : held frames = held (s.threads w).frames := by rw [ht]
      rw [ht] at hafter hthread
      cases now with
      | act f next => exact h.goto hafter hheld (f s.value)
      | check test next => exact h.goto hafter hheld s.value
      | scope mode k body next =>
          simp only [State.ready, ht] at hready
          refine h.lock hafter (congrArg (List.cons (k, mode)) hheld) ?_ hready
          rw [← hheld]
          exact hthread.now.1
      | attempt body handler next => exact h.goto hafter hheld s.value
      | done r =>
          cases frames with
          | nil => exact h.goto hafter hheld s.value
          | cons frame frames =>
              cases frame with
              | scope mode k next => exact h.unlock hafter hheld.symm hthread.frames.1
              | attempt handler next => exact h.goto hafter hheld s.value
              | goOn next => exact h.goto hafter hheld s.value
      | throw e =>
          cases frames with
          | nil => exact h.goto hafter hheld s.value
          | cons frame frames =>
              cases frame with
              | scope mode k next => exact h.unlock hafter hheld.symm hthread.frames.1
              | attempt handler next => exact h.goto hafter hheld s.value
              | goOn next => exact h.goto hafter hheld s.value

theorem step_iff {code : C → Prog V K R F} :
    (machine code).step s (.step w) = some s' ↔
      s.ready w = true ∧ s.fault w = none ∧ s' = s.advance w := by
  rw [Machine.step_eq_some_iff]
  simp only [machine]
  cases s.fault w with
  | some f => simp
  | none =>
      rw [Except.ok.injEq]
      exact and_congr_right fun _ => ⟨fun h => ⟨rfl, h.symm⟩, fun h => h.2.symm⟩

theorem Valid.step {code : C → Prog V K R F} (hcode : ∀ c, (code c).Disciplined rank part fails [])
    (h : Valid rank part fails s) {a : Act W C} (hstep : (machine code).step s a = some s') :
    Valid rank part fails s' := by
  cases a with
  | call w c =>
      obtain ⟨hguard, hexec⟩ := (machine code).step_eq_some_iff.mp hstep
      cases hexec
      have hthread : Thread.Disciplined rank part fails ⟨code c, []⟩ := ⟨hcode c, trivial⟩
      exact h.goto hthread (by rw [frames_of_idle hguard]) s.value
  | step w =>
      obtain ⟨hready, -, rfl⟩ := step_iff.mp hstep
      exact h.advance hready

theorem valid_of_run [Inhabited R] {code : C → Prog V K R F}
    (hcode : ∀ c, (code c).Disciplined rank part fails []) {v : V} {acts : List (Act W C)}
    (hrun : (machine code).run (start v) acts = some s) : Valid rank part fails s :=
  Machine.run_invariant (fun h hstep => h.step hcode hstep) (valid_start v) hrun

end

end Qslary.Foundation.ScopedLocks
