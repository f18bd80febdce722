import Qslary.Foundation.Monitor

/-!
# `MutexLock` and `Condition`

A program that calls `lock`, `unlock` and `wait` runs as one in which they are the calls of
pthreads with the writes of `m_holder` around them.  The holder that is written is exact,
and the program cannot tell that a call takes several steps.
-/

namespace Qslary.Sync

open Qslary.Foundation Qslary.Foundation.Monitor

variable {W V L : Type*}

/-- What the mutex protects, with the thread that is said to hold it. -/
structure Locked (V : Type*) where
  data : V
  m_holder : Int

/-- How many steps of a call are done. -/
inductive Done where
  | none
  | one
  | two
  deriving DecidableEq

namespace MutexLock

section

variable {P : Type*}

def assignHolder (tid : Int) (next : P) : Instr (Locked V) P :=
  .act fun v => some ({ v with m_holder := tid }, next)

def unassignHolder (next : P) : Instr (Locked V) P :=
  .act fun v => some ({ v with m_holder := 0 }, next)

/-- At a place that no thread gets to. -/
def stay (place : P) : Instr (Locked V) P := .act fun v => some (v, place)

end

/-- The program of a client, with the calls taken apart. -/
def code (tid : W → Int) (client : W → L → Instr V L) (w : W) :
    L × Done → Instr (Locked V) (L × Done)
  | (l, .none) =>
      match client w l with
      | .lock _ => .lock (l, .one)
      | .unlock _ => unassignHolder (l, .one)
      | .wait _ => unassignHolder (l, .one)
      | .notify next => .notify (next, .none)
      | .notifyAll next => .notifyAll (next, .none)
      | .act f => .act fun v =>
          (f v.data).map fun result => ({ v with data := result.1 }, (result.2, .none))
      | .choose targets => .choose fun place => targets place.1 && place.2 = .none
  | (l, .one) =>
      match client w l with
      | .lock next => assignHolder (tid w) (next, .none)
      | .unlock next => .unlock (next, .none)
      | .wait _ => .wait (l, .two)
      | _ => stay (l, .one)
  | (l, .two) =>
      match client w l with
      | .wait next => assignHolder (tid w) (next, .none)
      | _ => stay (l, .two)

/-- Inside of a call the mutex is held, but the holder is not written. -/
def inside (holds : W → L → Bool) (w : W) : L × Done → Bool
  | (l, .none) => holds w l
  | _ => true

def owns (holds : W → L → Bool) (w : W) (place : L × Done) : Bool :=
  holds w place.1 && place.2 = .none

/-- No call is under way. -/
def start (pc : W → L) (v : V) : State W (Locked V) (L × Done) :=
  ⟨fun w => (pc w, .none), none, [], [], ⟨v, 0⟩⟩

variable {tid : W → Int} {client : W → L → Instr V L} {holds : W → L → Bool}

theorem disciplined (hclient : Disciplined client holds) :
    Disciplined (code tid client) (inside holds) := by
  rintro w ⟨l, done⟩
  have hrespects := hclient w l
  cases done with
  | none =>
      cases hinstr : client w l with
      | act f =>
          rw [hinstr] at hrespects
          simp only [code, hinstr, Instr.Respects, Option.map_eq_some_iff]
          rintro v v' next ⟨⟨data, next'⟩, hf, hnext⟩
          cases hnext
          exact hrespects _ _ _ hf
      | choose targets =>
          rw [hinstr] at hrespects
          simp only [code, hinstr, Instr.Respects, Bool.and_eq_true, decide_eq_true_eq]
          rintro ⟨next, done⟩ ⟨htarget, rfl⟩
          exact hrespects next htarget
      | _ =>
          rw [hinstr] at hrespects
          simp only [Instr.Respects] at hrespects
          simp [code, hinstr, Instr.Respects, inside, unassignHolder, hrespects]
  | one =>
      cases hinstr : client w l with
      | lock next | unlock next | wait next =>
          rw [hinstr] at hrespects
          simp only [Instr.Respects] at hrespects
          simp [code, hinstr, Instr.Respects, inside, assignHolder, hrespects]
      | _ => simp [code, hinstr, Instr.Respects, stay]
  | two =>
      cases hinstr : client w l with
      | wait next =>
          rw [hinstr] at hrespects
          simp only [Instr.Respects] at hrespects
          simp [code, hinstr, Instr.Respects, inside, assignHolder, hrespects]
      | _ => simp [code, hinstr, Instr.Respects, stay]

/-! ## The holder -/

/-- Who has the mutex has written itself, except inside of a call. -/
def Written (tid : W → Int) (holds : W → L → Bool) (w : W) (place : L × Done) (v : Locked V) :
    Prop :=
  inside holds w place = true → v.m_holder = if place.2 = .none then tid w else 0

/-- The holder is written inside of calls only. -/
theorem m_holder_of_act (hclient : Disciplined client holds) {w : W} {place next : L × Done}
    {f : Locked V → Option (Locked V × (L × Done))} {v v' : Locked V}
    (hact : code tid client w place = .act f) (hf : f v = some (v', next)) :
    v'.m_holder = v.m_holder ∨ inside holds w place = true := by
  obtain ⟨l, done⟩ := place
  have hrespects := hclient w l
  cases done with
  | none =>
      cases hinstr : client w l with
      | act g =>
          simp only [code, hinstr, Instr.act.injEq] at hact
          subst hact
          obtain ⟨result, -, hresult⟩ := Option.map_eq_some_iff.mp hf
          cases hresult
          exact .inl rfl
      | unlock _ | wait _ =>
          rw [hinstr] at hrespects
          exact .inr hrespects.1
      | _ => simp [code, hinstr] at hact
  | one => exact .inr rfl
  | two => exact .inr rfl

theorem outline (hclient : Disciplined client holds) :
    Outline (code tid client) (inside holds) (fun v => v.m_holder = 0) (Written tid holds) where
  disciplined := disciplined hclient
  proved := by
    rintro w ⟨l, done⟩
    have hrespects := hclient w l
    cases done with
    | none =>
        cases hinstr : client w l with
        | act f =>
            rw [hinstr] at hrespects
            simp only [code, hinstr, Instr.Proved, Option.map_eq_some_iff]
            rintro v v' next ⟨⟨data, next'⟩, hf, hnext⟩ hv
            cases hnext
            have hsame := hrespects _ _ _ hf
            exact ⟨fun hnext => hv (hsame.symm.trans hnext), fun _ hfree => hfree⟩
        | choose targets =>
            rw [hinstr] at hrespects
            simp only [code, hinstr, Instr.Proved, Bool.and_eq_true, decide_eq_true_eq]
            rintro ⟨next, done⟩ v ⟨htarget, rfl⟩ hv
            have hsame := hrespects next htarget
            exact fun hnext => hv (hsame.symm.trans hnext)
        | _ =>
            rw [hinstr] at hrespects
            simp only [Instr.Respects] at hrespects
            simp_all [code, Instr.Proved, Written, inside, unassignHolder]
    | one =>
        cases hinstr : client w l with
        | lock next | unlock next | wait next =>
            rw [hinstr] at hrespects
            simp only [Instr.Respects] at hrespects
            simp_all [code, Instr.Proved, Written, inside, assignHolder]
        | _ => simp [code, hinstr, Instr.Proved, stay]
    | two =>
        cases hinstr : client w l with
        | wait next => simp_all [code, Instr.Proved, Written, inside, assignHolder]
        | _ => simp [code, hinstr, Instr.Proved, stay]
  stable := by
    intro w place f v v' next hact hf hv u other hne hapart hu hinside
    rcases m_holder_of_act hclient hact hf with hsame | hself
    · rw [hsame]
      exact hu hinside
    · rcases hapart with hout | hout
      · exact absurd (hself.symm.trans hout) nofun
      · exact absurd (hinside.symm.trans hout) nofun

section

variable [DecidableEq W] {pc : W → L} {v : V} {acts : List (Act W (L × Done))}
  {s : State W (Locked V) (L × Done)}

theorem valid_of_run (hclient : Disciplined client holds) (hout : ∀ w, holds w (pc w) = false)
    (hrun : (machine (code tid client)).run (start pc v) acts = some s) :
    Valid (code tid client) (inside holds) (fun v => v.m_holder = 0) (Written tid holds) s := by
  have hstart : ∀ w, inside holds w (pc w, .none) = false := hout
  refine (outline hclient).valid (valid_start hstart (fun w hheld => ?_) rfl) hrun
  exact absurd (hheld.symm.trans (hout w)) nofun

/-- `isLockedByThisThread` is true for the thread between `lock` and `unlock`, and not in
`wait`; the assertion of the destructor and those on the calls of pthreads hold. -/
theorem holder_exact (hclient : Disciplined client holds) (hinjective : Function.Injective tid)
    (htid : ∀ w, tid w ≠ 0) (hout : ∀ w, holds w (pc w) = false)
    (hrun : (machine (code tid client)).run (start pc v) acts = some s) :
    (∀ w, s.value.m_holder = tid w ↔ s.Running w ∧ owns holds w (s.pc w) = true) ∧
      (s.holder = none → s.value.m_holder = 0) ∧
      ∀ a, enabled (code tid client) s a = true →
        exec (code tid client) s a ≠ .error .notHolder := by
  have hvalid := valid_of_run hclient hout hrun
  refine ⟨fun w => ⟨fun hholder => ?_, ?_⟩, hvalid.free, fun a henabled =>
    hvalid.exec_ne_notHolder (disciplined hclient) henabled⟩
  · cases hmutex : s.holder with
    | none => exact absurd (hholder.symm.trans (hvalid.free hmutex)) (htid w)
    | some u =>
        obtain ⟨hu, hinside⟩ := (hvalid.holder_iff u).mp hmutex
        have hwritten := hvalid.here u hu hinside
        split at hwritten
        · rename_i hdone
          obtain rfl := hinjective (hwritten.symm.trans hholder)
          refine ⟨hu, ?_⟩
          rw [owns, hdone, decide_eq_true rfl, Bool.and_true]
          rw [show s.pc u = ((s.pc u).1, .none) from Prod.ext rfl hdone] at hinside
          exact hinside
        · exact absurd (hholder.symm.trans hwritten) (htid w)
  · rintro ⟨hw, howns⟩
    obtain ⟨hholds, hdone⟩ := Bool.and_eq_true_iff.mp howns
    have hdone := of_decide_eq_true hdone
    have hinside : inside holds w (s.pc w) = true := by
      rw [show s.pc w = ((s.pc w).1, .none) from Prod.ext rfl hdone]
      exact hholds
    have hwritten := hvalid.here w hw hinside
    rwa [if_pos hdone] at hwritten

/-- Both threads take the mutex and give it back again and again. -/
def again (_ : Bool) (l : Bool) : Instr Unit Bool := if l then .unlock false else .lock true

/-- One of them is behind `lock`. -/
theorem holder_exact_again :
    ∃ s, (machine (code (fun w : Bool => if w then 2 else 1) again)).run
        (start (fun _ => false) ()) [.step true, .step true] = some s ∧
      ∀ w : Bool, s.value.m_holder = (if w then 2 else 1) ↔
        s.Running w ∧ owns (fun _ l => l) w (s.pc w) = true := by
  obtain ⟨s, hrun⟩ : ∃ s, (machine (code (fun w : Bool => if w then 2 else 1) again)).run
      (start (fun _ => false) ()) [.step true, .step true] = some s := ⟨_, rfl⟩
  refine ⟨s, hrun, (holder_exact ?_ ?_ ?_ (fun _ => rfl) hrun).1⟩
  · rintro w (_ | _) <;> simp [again, Instr.Respects]
  · rintro (_ | _) (_ | _) <;> simp
  · rintro (_ | _) <;> simp

end

/-! ## The client's view -/

/-- Where the client is, or gets to by what the call has done. -/
def view (client : W → L → Instr V L) (w : W) : L × Done → L
  | (l, .none) => l
  | (l, .one) =>
      match client w l with
      | .lock next => next
      | _ => l
  | (l, .two) =>
      match client w l with
      | .wait next => next
      | _ => l

def seen (client : W → L → Instr V L) (s : State W (Locked V) (L × Done)) : State W V L :=
  ⟨fun w => view client w (s.pc w), s.holder, s.sleeping, s.woken, s.value.data⟩

section

variable {w : W} {place next : L × Done}

theorem of_code_lock (h : code tid client w place = .lock next) :
    ∃ l target, place = (l, .none) ∧ client w l = .lock target ∧ next = (l, .one) := by
  obtain ⟨l, done⟩ := place
  cases done <;> cases hinstr : client w l <;>
    simp_all [code, unassignHolder, assignHolder, stay]

theorem of_code_unlock (h : code tid client w place = .unlock next) :
    ∃ l target, place = (l, .one) ∧ client w l = .unlock target ∧ next = (target, .none) := by
  obtain ⟨l, done⟩ := place
  cases done <;> cases hinstr : client w l <;>
    simp_all [code, unassignHolder, assignHolder, stay]

theorem of_code_wait (h : code tid client w place = .wait next) :
    ∃ l target, place = (l, .one) ∧ client w l = .wait target ∧ next = (l, .two) := by
  obtain ⟨l, done⟩ := place
  cases done <;> cases hinstr : client w l <;>
    simp_all [code, unassignHolder, assignHolder, stay]

theorem of_code_notify (h : code tid client w place = .notify next) :
    ∃ l target, place = (l, .none) ∧ client w l = .notify target ∧ next = (target, .none) := by
  obtain ⟨l, done⟩ := place
  cases done <;> cases hinstr : client w l <;>
    simp_all [code, unassignHolder, assignHolder, stay]

theorem of_code_notifyAll (h : code tid client w place = .notifyAll next) :
    ∃ l target, place = (l, .none) ∧ client w l = .notifyAll target ∧ next = (target, .none) := by
  obtain ⟨l, done⟩ := place
  cases done <;> cases hinstr : client w l <;>
    simp_all [code, unassignHolder, assignHolder, stay]

theorem of_code_choose {targets : L × Done → Bool} (h : code tid client w place = .choose targets)
    (hnext : targets next = true) :
    ∃ l targets', place = (l, .none) ∧ client w l = .choose targets' ∧
      targets' next.1 = true ∧ next.2 = .none := by
  obtain ⟨l, done⟩ := place
  cases done <;> cases hinstr : client w l <;>
    simp_all [code, unassignHolder, assignHolder, stay]
  subst h
  simpa using hnext

/-- An act is one of the client, or a write of the holder that the client does not see. -/
theorem of_code_act {f : Locked V → Option (Locked V × (L × Done))} {v v' : Locked V}
    (h : code tid client w place = .act f) (hf : f v = some (v', next)) :
    (view client w next = view client w place ∧ v'.data = v.data) ∨
      ∃ l g, place = (l, .none) ∧ client w l = .act g ∧ g v.data = some (v'.data, next.1) ∧
        next.2 = .none := by
  obtain ⟨l, done⟩ := place
  cases done with
  | none =>
      cases hinstr : client w l with
      | act g =>
          simp only [code, hinstr, Instr.act.injEq] at h
          subst h
          obtain ⟨result, hg, hresult⟩ := Option.map_eq_some_iff.mp hf
          cases hresult
          exact .inr ⟨l, g, rfl, hinstr, hg, rfl⟩
      | unlock target | wait target =>
          simp only [code, hinstr, unassignHolder, Instr.act.injEq] at h
          subst h
          cases hf
          simp [view, hinstr]
      | _ => simp [code, hinstr] at h
  | one =>
      cases hinstr : client w l with
      | lock target =>
          simp only [code, hinstr, assignHolder, Instr.act.injEq] at h
          subst h
          cases hf
          simp [view, hinstr]
      | unlock _ | wait _ => simp [code, hinstr] at h
      | _ =>
          simp only [code, hinstr, stay, Instr.act.injEq] at h
          subst h
          cases hf
          exact .inl ⟨rfl, rfl⟩
  | two =>
      cases hinstr : client w l with
      | wait target =>
          simp only [code, hinstr, assignHolder, Instr.act.injEq] at h
          subst h
          cases hf
          simp [view, hinstr]
      | _ =>
          simp only [code, hinstr, stay, Instr.act.injEq] at h
          subst h
          cases hf
          exact .inl ⟨rfl, rfl⟩

/-- The calls do not fail, if the acts of the client do not. -/
theorem act_ne_none {f : Locked V → Option (Locked V × (L × Done))} {v : Locked V}
    (hclient : ∀ {g}, client w place.1 = .act g → place.2 = .none → g v.data ≠ none)
    (h : code tid client w place = .act f) : f v ≠ none := by
  obtain ⟨l, done⟩ := place
  cases done <;> cases hinstr : client w l <;>
    simp only [code, hinstr, unassignHolder, assignHolder, stay, Instr.act.injEq, reduceCtorEq] at h
  all_goals subst h
  case none.act g => simpa using hclient hinstr rfl
  all_goals simp

theorem none_of_code_choose {targets : L × Done → Bool}
    (h : code tid client w place = .choose targets) :
    place.2 = .none ∧ ∃ targets', client w place.1 = .choose targets' := by
  obtain ⟨l, done⟩ := place
  cases done <;> cases hinstr : client w l <;>
    simp_all [code, unassignHolder, assignHolder, stay]

/-- A call is under way only where there is one. -/
def Fits (client : W → L → Instr V L) (w : W) (place : L × Done) : Prop :=
  place.2 = .none ∨ ∃ next, client w place.1 = .lock next ∨ client w place.1 = .unlock next ∨
    client w place.1 = .wait next

theorem fits_of_act {f : Locked V → Option (Locked V × (L × Done))} {v v' : Locked V}
    (h : code tid client w place = .act f) (hf : f v = some (v', next))
    (hfits : Fits client w place) : Fits client w next := by
  obtain ⟨l, done⟩ := place
  cases done with
  | none =>
      cases hinstr : client w l with
      | act g =>
          simp only [code, hinstr, Instr.act.injEq] at h
          subst h
          obtain ⟨result, -, hresult⟩ := Option.map_eq_some_iff.mp hf
          cases hresult
          exact .inl rfl
      | unlock target | wait target =>
          simp only [code, hinstr, unassignHolder, Instr.act.injEq] at h
          subst h
          cases hf
          exact .inr ⟨target, by simp [hinstr]⟩
      | _ => simp [code, hinstr] at h
  | one | two =>
      cases hinstr : client w l <;>
        simp only [code, hinstr, assignHolder, stay, Instr.act.injEq, reduceCtorEq] at h
      all_goals
        subst h
        cases hf
      all_goals first | exact .inl rfl | exact hfits

end

section

variable [DecidableEq W] {s s' : State W (Locked V) (L × Done)}

theorem Steps.fits (h : ∀ w, Fits client w (s.pc w)) (hstep : Steps (code tid client) s s') (w : W) :
    Fits client w (s'.pc w) := by
  have hgoto : ∀ {u next}, Fits client u next → Fits client w ((s.goto u next).pc w) := by
    intro u next hnext
    by_cases hne : w = u
    · subst hne
      rwa [goto_pc_self]
    · rw [goto_pc_of_ne hne]
      exact h w
  cases hstep with
  | lock hw hinstr hfree =>
      obtain ⟨l, target, hplace, hclient, rfl⟩ := of_code_lock hinstr
      exact hgoto (.inr ⟨target, .inl hclient⟩)
  | unlock hw hinstr hholder =>
      obtain ⟨l, target, hplace, hclient, rfl⟩ := of_code_unlock hinstr
      exact hgoto (.inl rfl)
  | wait hw hinstr hholder => exact h w
  | notify hw hinstr hnone =>
      obtain ⟨l, target, hplace, hclient, rfl⟩ := of_code_notify hinstr
      exact hgoto (.inl rfl)
  | signal hw hinstr hu =>
      obtain ⟨l, target, hplace, hclient, rfl⟩ := of_code_notify hinstr
      exact hgoto (.inl rfl)
  | notifyAll hw hinstr =>
      obtain ⟨l, target, hplace, hclient, rfl⟩ := of_code_notifyAll hinstr
      exact hgoto (.inl rfl)
  | act hw hinstr hf => exact hgoto (fits_of_act hinstr hf (h _))
  | jump hw hinstr htarget =>
      obtain ⟨l, targets', hplace, hclient, htarget', hnone⟩ := of_code_choose hinstr htarget
      exact hgoto (.inl hnone)
  | wake hu => exact h w
  | resume hw hinstr hfree =>
      obtain ⟨l, target, hplace, hclient, rfl⟩ := of_code_wait hinstr
      exact hgoto (.inr ⟨target, .inr (.inr hclient)⟩)

theorem fits_of_run {pc : W → L} {v : V} {acts : List (Act W (L × Done))}
    (hrun : (machine (code tid client)).run (start pc v) acts = some s) (w : W) :
    Fits client w (s.pc w) := by
  have hstep : ∀ {s a s'}, (∀ w, Fits client w (s.pc w)) →
      (machine (code tid client)).step s a = some s' → ∀ w, Fits client w (s'.pc w) :=
    fun hs hstep w => Steps.fits hs (steps_of_step hstep) w
  exact Machine.run_invariant hstep (fun _ => .inl rfl) hrun w

omit [DecidableEq W] in
theorem seen_of_none {w : W} (hnone : (s.pc w).2 = .none) :
    (seen client s).pc w = (s.pc w).1 := by
  change view client w (s.pc w) = _
  rw [show s.pc w = ((s.pc w).1, .none) from Prod.ext rfl hnone]
  rfl

theorem seen_goto (s : State W (Locked V) (L × Done)) (w : W) (place : L × Done) :
    seen client (s.goto w place) = (seen client s).goto w (view client w place) := by
  have hpc : (fun u => view client u ((s.goto w place).pc u)) =
      Function.update (fun u => view client u (s.pc u)) w (view client w place) := by
    funext u
    by_cases hne : u = w
    · subst hne
      rw [goto_pc_self, Function.update_self]
    · rw [goto_pc_of_ne hne, Function.update_of_ne hne]
  simp only [seen, State.goto] at hpc ⊢
  rw [hpc]

/-- The client sees a step of its own, or none. -/
theorem seen_steps (hstep : Steps (code tid client) s s') :
    seen client s' = seen client s ∨ Steps client (seen client s) (seen client s') := by
  have hat : ∀ {w l done instr}, s.pc w = (l, done) → view client w (l, done) = l →
      client w l = instr → client w ((seen client s).pc w) = instr := by
    intro w l done instr hplace hview hclient
    rwa [show (seen client s).pc w = view client w (s.pc w) from rfl, hplace, hview]
  cases hstep with
  | @lock w next hw hinstr hfree =>
      obtain ⟨l, target, hplace, hclient, rfl⟩ := of_code_lock hinstr
      have hlock := Steps.lock (s := seen client s) hw (hat hplace rfl hclient) hfree
      have hview : view client w (l, .one) = target := by simp [view, hclient]
      rw [← hview, ← seen_goto] at hlock
      exact .inr hlock
  | @unlock w next hw hinstr hholder =>
      obtain ⟨l, target, hplace, hclient, rfl⟩ := of_code_unlock hinstr
      have hhere := hat hplace (by simp [view, hclient]) hclient
      have hunlock := Steps.unlock (s := seen client s) hw hhere hholder
      rw [show target = view client w (target, .none) from rfl, ← seen_goto] at hunlock
      exact .inr hunlock
  | @wait w next hw hinstr hholder =>
      obtain ⟨l, target, hplace, hclient, rfl⟩ := of_code_wait hinstr
      have hhere := hat hplace (by simp [view, hclient]) hclient
      exact .inr (.wait hw hhere hholder)
  | @notify w next hw hinstr hnone =>
      obtain ⟨l, target, hplace, hclient, rfl⟩ := of_code_notify hinstr
      have hnotify := Steps.notify (s := seen client s) hw (hat hplace rfl hclient) hnone
      rw [show target = view client w (target, .none) from rfl, ← seen_goto] at hnotify
      exact .inr hnotify
  | @signal w u next hw hinstr hu =>
      obtain ⟨l, target, hplace, hclient, rfl⟩ := of_code_notify hinstr
      have hsignal := Steps.signal (s := seen client s) hw (hat hplace rfl hclient) hu
      rw [show target = view client w (target, .none) from rfl, ← seen_goto] at hsignal
      exact .inr hsignal
  | @notifyAll w next hw hinstr =>
      obtain ⟨l, target, hplace, hclient, rfl⟩ := of_code_notifyAll hinstr
      have hnotify := Steps.notifyAll (s := seen client s) hw (hat hplace rfl hclient)
      rw [show target = view client w (target, .none) from rfl, ← seen_goto] at hnotify
      exact .inr hnotify
  | @act w f v next hw hinstr hf =>
      rcases of_code_act hinstr hf with ⟨hview, hdata⟩ | ⟨l, g, hplace, hclient, hg, hnext⟩
      · left
        have hsame : (seen client s).goto w (view client w next) = seen client s := by
          rw [hview, State.goto, show view client w (s.pc w) = (seen client s).pc w from rfl,
            Function.update_eq_self]
        rw [← seen_goto] at hsame
        rw [← hsame]
        simp only [seen, hdata]
        rfl
      · have hact := Steps.act (s := seen client s) hw (hat hplace rfl hclient) hg
        have hview : view client w next = next.1 := by
          rw [show next = (next.1, .none) from Prod.ext rfl hnext]
          rfl
        rw [← hview, ← seen_goto] at hact
        exact .inr hact
  | @jump w targets target hw hinstr htarget =>
      obtain ⟨l, targets', hplace, hclient, htarget', hnone⟩ := of_code_choose hinstr htarget
      have hjump := Steps.jump (s := seen client s) hw (hat hplace rfl hclient) htarget'
      have hview : view client w target = target.1 := by
        rw [show target = (target.1, .none) from Prod.ext rfl hnone]
        rfl
      rw [← hview, ← seen_goto] at hjump
      exact .inr hjump
  | wake hu => exact .inr (.wake hu)
  | @resume w next hw hinstr hfree =>
      obtain ⟨l, target, hplace, hclient, rfl⟩ := of_code_wait hinstr
      have hhere := hat hplace (by simp [view, hclient]) hclient
      have hresume := Steps.resume (s := seen client s) hw hhere hfree
      have hview : view client w (l, .two) = target := by simp [view, hclient]
      rw [← hview, ← seen_goto] at hresume
      exact .inr hresume

/-- Every run is one of the client. -/
theorem reachable_seen {acts : List (Act W (L × Done))}
    (hrun : (machine (code tid client)).run s acts = some s') :
    (machine client).Reachable (seen client s) (seen client s') :=
  Machine.reachable_of_simulates
    (fun hstep => (seen_steps (steps_of_step hstep)).imp_right exists_step) hrun

/-- A call goes on until its thread sleeps, or another thread can. -/
theorem progress {w : W} (hclient : Disciplined client holds)
    (h : Sound (code tid client) (inside holds) s)
    (hfirm : ∀ {w l targets}, client w l = .choose targets → holds w l = false)
    (hacts : ∀ {w g}, s.Running w → client w (s.pc w).1 = .act g → (s.pc w).2 = .none →
      g s.value.data ≠ none) (hw : w ∉ s.sleeping)
    (hbusy : ∀ targets, client w (s.pc w).1 = .choose targets → (s.pc w).2 ≠ .none) :
    ∃ a s', a.Works ∧ (machine (code tid client)).step s a = some s' := by
  refine h.progress (disciplined hclient) ?_ (fun hu => act_ne_none (hacts hu)) hw ?_
  · rintro w ⟨l, done⟩ targets hchoose
    obtain ⟨rfl, targets', hinstr⟩ := none_of_code_choose hchoose
    exact hfirm hinstr
  · intro targets hchoose
    obtain ⟨hnone, targets', hinstr⟩ := none_of_code_choose hchoose
    exact hbusy targets' hinstr hnone

theorem progress_of_held (hclient : Disciplined client holds)
    (h : Sound (code tid client) (inside holds) s)
    (hfirm : ∀ {w l targets}, client w l = .choose targets → holds w l = false)
    (hacts : ∀ {w g}, s.Running w → client w (s.pc w).1 = .act g → (s.pc w).2 = .none →
      g s.value.data ≠ none) {w : W} (hholder : s.holder = some w) :
    ∃ a s', a.Works ∧ (machine (code tid client)).step s a = some s' := by
  obtain ⟨hw, hinside⟩ := (h.holder_iff w).mp hholder
  refine progress hclient h hfirm hacts (fun hmem => hw (List.mem_append_left _ hmem)) ?_
  intro targets hinstr hnone
  rw [show s.pc w = ((s.pc w).1, .none) from Prod.ext rfl hnone] at hinside
  exact absurd (hinside.symm.trans (hfirm hinstr)) nofun

end

end MutexLock

end Qslary.Sync
