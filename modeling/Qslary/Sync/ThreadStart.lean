import Qslary.Sync.CountDownLatch

/-!
# `Thread::start`

The thread that is started writes its id into the object of its creator and counts down the
latch there, for which the creator waits.  When `start` returns, the id is there and the
other thread is done with the object.
-/

namespace Qslary.Sync

open Qslary.Foundation Qslary.Foundation.Monitor

/-- Who calls `start`, and the thread that `pthread_create` has made. -/
inductive Party where
  | creator
  | created
  deriving DecidableEq

/-- What the two have in common: the count of `latch_`, and `tid_`. -/
structure ThreadObject where
  m_count : Int
  tid_ : Int

namespace Thread

/-- Behind the latch the creator asserts that there is an id; the other one runs `func_`. -/
inductive StartPc where
  | setTid
  | latch (pc : LatchPc)
  | assertTid
  | returned
  | running
  deriving DecidableEq

def m_count : Field ThreadObject := ⟨ThreadObject.m_count, fun n v => { v with m_count := n }⟩

/-- `start` behind `pthread_create`, and `runInThread`. -/
def code (tid : Party → Int) : Party → StartPc → Instr ThreadObject StartPc
  | .creator, .latch pc => CountDownLatch.instr m_count .latch .assertTid pc
  | .creator, .assertTid => .act fun v => if v.tid_ > 0 then some (v, .returned) else none
  | .created, .setTid => .act fun v => some ({ v with tid_ := tid .created }, .latch .downLock)
  | .created, .latch pc => CountDownLatch.instr m_count .latch .running pc
  | _, _ => .choose fun _ => false

def startPc : Party → StartPc
  | .creator => .latch .waitLock
  | .created => .setTid

def holds (_ : Party) : StartPc → Bool
  | .latch pc => CountDownLatch.holds pc
  | _ => false

/-- Before the count is down, or behind it. -/
def Told (tid : Party → Int) (v : ThreadObject) : Prop :=
  v.m_count = 0 ∧ v.tid_ = tid .created

def Known (tid : Party → Int) : Party → StartPc → ThreadObject → Prop
  | .creator, .latch .waitLock, _ => True
  | .creator, .latch .waitTest, v => v.m_count = 1 ∨ Told tid v
  | .creator, .latch .waitSleep, v => v.m_count = 1
  | .creator, .latch .waitUnlock, v | .creator, .assertTid, v | .creator, .returned, v =>
      Told tid v
  | .created, .setTid, v => v.m_count = 1
  | .created, .latch .downLock, v | .created, .latch .downDecrement, v =>
      v.m_count = 1 ∧ v.tid_ = tid .created
  | .created, .latch .downTest, v | .created, .latch .downNotify, v
  | .created, .latch .downUnlock, v | .created, .running, v => Told tid v
  | _, _, _ => False

def owes : Party → StartPc → Bool
  | .created, .latch .downTest | .created, .latch .downNotify => true
  | _, _ => false

variable {tid : Party → Int}

theorem disciplined : Disciplined (code tid) holds := by
  have hat : ∀ party pc, holds party (.latch pc) = CountDownLatch.holds pc := fun _ _ => rfl
  rintro (_ | _) (_ | pc | _ | _ | _)
  case creator.latch | created.latch => exact CountDownLatch.instr_respects (hat _) rfl pc
  case creator.assertTid =>
    simp only [code, Instr.Respects]
    intro v v' next hact
    split at hact <;> cases hact
    rfl
  all_goals simp [code, Instr.Respects, holds, CountDownLatch.holds]

/-- Only `tid_` is written without the mutex, and only the count with it. -/
theorem act_cases {w : Party} {pc next : StartPc}
    {f : ThreadObject → Option (ThreadObject × StartPc)} {v v' : ThreadObject}
    (hact : code tid w pc = .act f) (hf : f v = some (v', next)) (hv : Known tid w pc v) :
    v' = v ∨
      (w = .created ∧ holds w pc = false ∧ v.m_count = 1 ∧ v'.m_count = 1) ∨
      (w = .created ∧ holds w pc = true ∧ v.m_count = 1) := by
  cases w with
  | creator =>
      cases pc with
      | latch pc =>
          cases pc with
          | waitTest | downTest | countRead =>
              cases hact
              cases hf
              exact .inl rfl
          | downDecrement => exact hv.elim
          | _ => cases hact
      | assertTid =>
          cases hact
          dsimp only at hf
          split at hf <;> cases hf
          exact .inl rfl
      | _ => cases hact
  | created =>
      cases pc with
      | setTid =>
          cases hact
          cases hf
          exact .inr (.inl ⟨rfl, rfl, hv, hv⟩)
      | latch pc =>
          cases pc with
          | waitTest | downTest | countRead =>
              cases hact
              cases hf
              exact .inl rfl
          | downDecrement => exact .inr (.inr ⟨rfl, rfl, hv.1⟩)
          | _ => cases hact
      | _ => cases hact

/-- The creator does not look at `tid_` before the count is down. -/
theorem known_of_setTid {v v' : ThreadObject} {pc : StartPc} (hone : v.m_count = 1)
    (hone' : v'.m_count = 1) (h : Known tid .creator pc v) : Known tid .creator pc v' := by
  have hnot : ¬ Told tid v := fun htold => absurd (hone.symm.trans htold.1) (by decide)
  cases pc with
  | latch pc =>
      cases pc with
      | waitLock => trivial
      | waitTest => exact .inl hone'
      | waitSleep => exact hone'
      | waitUnlock => exact absurd h hnot
      | _ => exact h.elim
  | assertTid | returned => exact absurd h hnot
  | _ => exact h.elim

theorem known_of_decrement {v v' : ThreadObject} {pc : StartPc} (hout : holds .creator pc = false)
    (hone : v.m_count = 1) (h : Known tid .creator pc v) : Known tid .creator pc v' := by
  have hnot : ¬ Told tid v := fun htold => absurd (hone.symm.trans htold.1) (by decide)
  cases pc with
  | latch pc =>
      cases pc with
      | waitLock => trivial
      | waitTest | waitSleep | waitUnlock => cases hout
      | _ => exact h.elim
  | assertTid | returned => exact absurd h hnot
  | _ => exact h.elim

theorem outline :
    Outline (code tid) holds (fun v => v.m_count = 1 ∨ Told tid v) (Known tid) where
  disciplined := disciplined
  proved := by
    rintro (_ | _) (_ | pc | _ | _ | _)
    case creator.latch =>
      cases pc with
      | waitLock => exact fun v _ hfree => hfree
      | waitTest =>
          rintro v v' next hact hv
          cases hact
          refine ⟨?_, by simp [holds]⟩
          rcases hv with hone | htold
          · simp [m_count, hone, Known]
          · simpa [m_count, htold.1, Known] using htold
      | waitSleep => exact fun v hv => ⟨.inl hv, fun v' hfree => hfree⟩
      | waitUnlock => exact fun v hv => ⟨.inr hv, hv⟩
      | _ => simp [code, CountDownLatch.instr, Instr.Proved, Known]
    case creator.assertTid =>
      rintro v v' next hact hv
      dsimp only at hact
      split at hact <;> cases hact
      exact ⟨hv, fun _ hfree => hfree⟩
    case created.setTid =>
      rintro v v' next hact hv
      cases hact
      exact ⟨⟨hv, rfl⟩, fun _ _ => .inl hv⟩
    case created.latch =>
      cases pc with
      | downLock => exact fun v hv _ => hv
      | downDecrement =>
          rintro v v' next hact ⟨hcount, hv⟩
          simp only [m_count, hcount] at hact
          cases hact
          exact ⟨⟨rfl, hv⟩, by simp [holds, CountDownLatch.holds]⟩
      | downTest =>
          rintro v v' next hact hv
          cases hact
          refine ⟨?_, by simp [holds]⟩
          simpa [m_count, hv.1, Known] using hv
      | downNotify => exact fun v hv => hv
      | downUnlock => exact fun v hv => ⟨.inr hv, hv⟩
      | _ => simp [code, CountDownLatch.instr, Instr.Proved, Known]
    all_goals simp [code, Instr.Proved]
  stable := by
    intro w pc f v v' next hact hf hv u other hne hapart hu
    rcases act_cases hact hf hv with rfl | ⟨rfl, hout, hone, hone'⟩ | ⟨rfl, hheld, hone⟩
    · exact hu
    · cases u with
      | created => exact absurd rfl hne
      | creator => exact known_of_setTid hone hone' hu
    · cases u with
      | created => exact absurd rfl hne
      | creator => exact known_of_decrement (hapart.resolve_left (by simp [hheld])) hone hu

theorem serves : Serves (code tid) holds (Known tid) (fun v => 0 < v.m_count)
    (fun w pc _ => owes w pc = true) where
  unlock := by
    rintro (_ | _) (_ | pc | _ | _ | _) v next hinstr hv howes
    case created.latch => cases pc <;> simp_all [code, CountDownLatch.instr, owes]
    all_goals cases howes
  wait := by
    rintro (_ | _) (_ | pc | _ | _ | _) v next hinstr hv
    case creator.latch | created.latch =>
      cases pc <;> simp_all [code, CountDownLatch.instr, Known]
    all_goals cases hinstr
  notify := by
    rintro (_ | _) (_ | pc | _ | _ | _) next hinstr
    case creator.latch | created.latch => cases pc <;> cases hinstr
    all_goals cases hinstr
  act := by
    rintro (_ | _) (_ | pc | _ | _ | _) f v v' next hinstr hf hv hheld h
    case creator.latch =>
      rcases act_cases hinstr hf hv with rfl | ⟨hother, -⟩ | ⟨hother, -⟩
      · exact .inl (h.resolve_right Bool.false_ne_true)
      · cases hother
      · cases hother
    case created.latch =>
      cases pc with
      | downDecrement =>
          cases hinstr
          simp only [m_count, hv.1] at hf
          cases hf
          exact .inr rfl
      | downTest =>
          cases hinstr
          simp only [m_count, hv.1, if_true] at hf
          cases hf
          exact .inr rfl
      | waitTest | countRead => exact hv.elim
      | _ => cases hinstr
    all_goals cases hheld
  apart := by
    rintro w pc f v v' next hinstr hf hv hout
    rcases act_cases hinstr hf hv with rfl | ⟨rfl, -, hone, hone'⟩ | ⟨rfl, hheld, -⟩
    · exact ⟨id, fun u l' => .inr⟩
    · exact ⟨fun _ => by rw [hone']; decide, fun u l' howes => .inr howes⟩
    · rw [hout] at hheld
      cases hheld
  choose := by
    rintro (_ | _) (_ | pc | _ | _ | _) v targets next hinstr hnext howes
    case creator.latch | created.latch => cases pc <;> cases hinstr
    all_goals cases howes

/-! ## Behind the latch -/

/-- The creator has seen the count down. -/
def Passed : StartPc → Prop
  | .latch .waitUnlock | .assertTid | .returned => True
  | _ => False

theorem passed_of_leadsTo {pc next : StartPc} {v v' : ThreadObject}
    (hv : Known tid .creator pc v) (hnext : (code tid .creator pc).LeadsTo v' next)
    (h : Passed next) :
    Passed pc ∨ next = .latch .waitUnlock := by
  cases pc with
  | latch pc =>
      cases pc with
      | waitTest =>
          obtain ⟨v'', hact⟩ := hnext
          cases hact
          split at h
          · exact h.elim
          · simp_all
      | waitLock | waitSleep =>
          cases hnext
          exact h.elim
      | waitUnlock => exact .inl trivial
      | _ => exact hv.elim
  | assertTid | returned => exact .inl trivial
  | _ => exact hv.elim

variable {s s' : State Party ThreadObject StartPc}

theorem created_awake
    (hvalid : Valid (code tid) holds (fun v => v.m_count = 1 ∨ Told tid v) (Known tid) s) :
    s.Running .created := by
  intro haway
  obtain ⟨next, hinstr⟩ := hvalid.waits .created haway
  obtain ⟨v, hslept⟩ := hvalid.slept .created haway
  cases hplace : s.pc .created with
  | latch pc =>
      rw [hplace] at hinstr hslept
      cases pc with
      | waitSleep => exact hslept
      | _ => cases hinstr
  | _ =>
      rw [hplace] at hinstr
      cases hinstr

/-- With the mutex the creator knows that the other thread will not take it any more. -/
theorem running_of_waitUnlock
    (hvalid : Valid (code tid) holds (fun v => v.m_count = 1 ∨ Told tid v) (Known tid) s)
    (hplace : s.pc .creator = .latch .waitUnlock) : s.pc .created = .running := by
  have hcreator : s.Running .creator := by
    intro haway
    obtain ⟨next, hinstr⟩ := hvalid.waits .creator haway
    rw [hplace] at hinstr
    cases hinstr
  have hheld : holds .creator (s.pc .creator) = true := by
    rw [hplace]
    rfl
  have htold : Told tid s.value := by
    have hhere := hvalid.here .creator hcreator
    rwa [hplace] at hhere
  have hnot : s.value.m_count ≠ 1 := by
    rw [htold.1]
    decide
  have hawake := created_awake hvalid
  have hhere := hvalid.here .created hawake
  have hout : holds .created (s.pc .created) ≠ true :=
    fun hboth => absurd (hvalid.unique hcreator hheld hawake hboth) nofun
  cases hother : s.pc .created with
  | setTid =>
      rw [hother] at hhere
      exact absurd hhere hnot
  | latch pc =>
      rw [hother] at hhere hout
      cases pc with
      | downLock => exact absurd hhere.1 hnot
      | downDecrement | downTest | downNotify | downUnlock => exact absurd rfl hout
      | _ => exact hhere.elim
  | running => rfl
  | _ =>
      rw [hother] at hhere
      exact hhere.elim

theorem running_of_steps
    (hvalid : Valid (code tid) holds (fun v => v.m_count = 1 ∨ Told tid v) (Known tid) s)
    (h : Passed (s.pc .creator) → s.pc .created = .running) (hstep : Steps (code tid) s s')
    (hpassed : Passed (s'.pc .creator)) : s'.pc .created = .running := by
  rcases hstep.moves with hsame | ⟨w, next, hnext, hmoved⟩
  · rw [hsame] at hpassed ⊢
    exact h hpassed
  · cases w with
    | created =>
        rw [hmoved, goto_pc_of_ne (by decide)] at hpassed
        rw [h hpassed] at hnext
        cases hnext
    | creator =>
        have hplace : s'.pc .creator = next := by
          rw [hmoved, goto_pc_self]
        have hother : s'.pc .created = s.pc .created := by
          rw [hmoved, goto_pc_of_ne (by decide)]
        obtain ⟨v, hv⟩ := hvalid.exists_at .creator
        rw [hplace] at hpassed
        rcases passed_of_leadsTo hv hnext hpassed with hbefore | rfl
        · rw [hother]
          exact h hbefore
        · exact running_of_waitUnlock (hstep.valid outline hvalid) hplace

/-! ## `start` with the mutex of the latch -/

section

variable {acts : List (Act Party (StartPc × Done))}
  {s : State Party (Locked ThreadObject) (StartPc × Done)}

theorem client_of_run
    (hrun : (machine (MutexLock.code tid (code tid))).run (MutexLock.start startPc ⟨1, 0⟩)
      acts = some s) :
    Valid (code tid) holds (fun v => v.m_count = 1 ∨ Told tid v) (Known tid)
        (MutexLock.seen (code tid) s) ∧
      Attended (fun v => 0 < v.m_count) (fun w pc _ => owes w pc = true)
        (MutexLock.seen (code tid) s) ∧
      (Passed ((MutexLock.seen (code tid) s).pc .creator) →
        (MutexLock.seen (code tid) s).pc .created = .running) := by
  obtain ⟨acts', hclient⟩ := MutexLock.reachable_seen hrun
  have hstart : Valid (code tid) holds (fun v => v.m_count = 1 ∨ Told tid v) (Known tid)
      ⟨startPc, none, [], [], ⟨1, 0⟩⟩ :=
    valid_start (by rintro (_ | _) <;> rfl) (by rintro (_ | _) <;> trivial) (.inl rfl)
  have hattended : Attended (fun v : ThreadObject => 0 < v.m_count) (fun w pc _ => owes w pc = true)
      ⟨startPc, none, [], [], ⟨1, 0⟩⟩ := nofun
  have hstep : ∀ {s a s'}, Valid (code tid) holds (fun v => v.m_count = 1 ∨ Told tid v)
        (Known tid) s ∧ (Passed (s.pc .creator) → s.pc .created = .running) →
      (machine (code tid)).step s a = some s' →
        Valid (code tid) holds (fun v => v.m_count = 1 ∨ Told tid v) (Known tid) s' ∧
          (Passed (s'.pc .creator) → s'.pc .created = .running) :=
    fun hs hstep => ⟨(steps_of_step hstep).valid outline hs.1,
      running_of_steps hs.1 hs.2 (steps_of_step hstep)⟩
  obtain ⟨hvalid, hrunning⟩ := Machine.run_invariant hstep ⟨hstart, False.elim⟩ hclient
  exact ⟨hvalid, outline.attended serves hstart hattended hclient, hrunning⟩

theorem eq_of_view_running {place : StartPc × Done}
    (hfits : MutexLock.Fits (code tid) .created place)
    (hview : MutexLock.view (code tid) .created place = .running) : place = (.running, .none) := by
  obtain ⟨pc, done⟩ := place
  cases done with
  | none => exact Prod.ext hview rfl
  | one | two =>
      obtain ⟨next, hcall⟩ := hfits.resolve_left (by simp)
      cases pc with
      | latch pc => cases pc <;> simp_all [MutexLock.view, code, CountDownLatch.instr]
      | _ => simp [code] at hcall

theorem choose_out {w : Party} {pc : StartPc} {targets : StartPc → Bool}
    (h : code tid w pc = .choose targets) : holds w pc = false := by
  cases pc with
  | latch pc => cases w <;> cases pc <;> cases h
  | _ => rfl

theorem returned_of_choose {pc : StartPc} {targets : StartPc → Bool} {v : ThreadObject}
    (h : code tid .creator pc = .choose targets) (hv : Known tid .creator pc v) :
    pc = .returned := by
  cases pc with
  | latch pc => cases pc <;> cases h
  | assertTid => cases h
  | returned => rfl
  | _ => exact hv.elim

theorem count_of_choose {pc : StartPc} {targets : StartPc → Bool} {v : ThreadObject}
    (h : code tid .created pc = .choose targets) (hv : Known tid .created pc v) :
    v.m_count = 0 := by
  cases pc with
  | setTid => cases h
  | latch pc => cases pc <;> cases h
  | running => exact hv.1
  | _ => exact hv.elim

/-- Neither the assertion of `start` nor the count fails. -/
theorem act_ne_none {w : Party} {pc : StartPc} {f : ThreadObject → Option (ThreadObject × StartPc)}
    {v : ThreadObject} (htid : 0 < tid .created) (hv : Known tid w pc v)
    (hact : code tid w pc = .act f) : f v ≠ none := by
  cases w with
  | creator =>
      cases pc with
      | latch pc =>
          cases pc with
          | waitTest =>
              cases hact
              exact nofun
          | downDecrement | downTest | countRead => exact hv.elim
          | _ => cases hact
      | assertTid =>
          cases hact
          have hid : v.tid_ = tid .created := hv.2
          simp [hid, htid]
      | _ => cases hact
  | created =>
      cases pc with
      | setTid =>
          cases hact
          exact nofun
      | latch pc =>
          cases pc with
          | downDecrement =>
              cases hact
              have hone : v.m_count = 1 := hv.1
              simp [m_count, hone]
          | downTest =>
              cases hact
              exact nofun
          | waitTest | countRead => exact hv.elim
          | _ => cases hact
      | _ => cases hact

/-- The assertion of `start` holds; when it has returned the other thread is through with the
latch, whose mutex is free; and until then one of the two can go on. -/
theorem start_exact (htid : 0 < tid .created)
    (hrun : (machine (MutexLock.code tid (code tid))).run (MutexLock.start startPc ⟨1, 0⟩)
      acts = some s) :
    ((s.pc .creator).1 = .assertTid → 0 < s.value.data.tid_) ∧
      ((s.pc .creator).1 = .returned → s.value.data.tid_ = tid .created ∧
        s.pc .created = (.running, .none) ∧ s.value.m_holder = 0) ∧
      ((s.pc .creator).1 ≠ .returned →
        ∃ a s', a.Works ∧ (machine (MutexLock.code tid (code tid))).step s a = some s') := by
  obtain ⟨hvalid, hattended, hrunning⟩ := client_of_run hrun
  have hsource := MutexLock.valid_of_run disciplined (by rintro (_ | _) <;> rfl) hrun
  have hfits := MutexLock.fits_of_run hrun
  have hbehind : ∀ {pc}, pc = .assertTid ∨ pc = .returned → (s.pc .creator).1 = pc →
      s.pc .creator = (pc, .none) := by
    rintro pc hpc hplace
    refine Prod.ext hplace ((hfits .creator).resolve_right ?_)
    rw [hplace]
    rcases hpc with rfl | rfl <;> simp [code]
  have htold : ∀ {pc}, pc = .assertTid ∨ pc = .returned → (s.pc .creator).1 = pc →
      Told tid s.value.data := by
    rintro pc hpc hplace
    have hat : (MutexLock.seen (code tid) s).pc .creator = (s.pc .creator).1 :=
      MutexLock.seen_of_none (congrArg Prod.snd (hbehind hpc hplace))
    rw [hplace] at hat
    have hawake : (MutexLock.seen (code tid) s).Running .creator := by
      intro haway
      obtain ⟨next, hinstr⟩ := hvalid.waits .creator haway
      rw [hat] at hinstr
      rcases hpc with rfl | rfl <;> cases hinstr
    have hhere := hvalid.here .creator hawake
    rw [hat] at hhere
    rcases hpc with rfl | rfl <;> exact hhere
  refine ⟨fun hplace => ?_, fun hplace => ?_, fun hplace => ?_⟩
  · rw [(htold (.inl rfl) hplace).2]
    exact htid
  · have hcreator := hbehind (.inr rfl) hplace
    have hpassed : Passed ((MutexLock.seen (code tid) s).pc .creator) := by
      rw [MutexLock.seen_of_none (congrArg Prod.snd hcreator), hplace]
      trivial
    have hcreated := eq_of_view_running (hfits .created) (hrunning hpassed)
    refine ⟨(htold (.inr rfl) hplace).2, hcreated, hsource.free ?_⟩
    cases hholder : s.holder with
    | none => rfl
    | some u =>
        obtain ⟨-, hinside⟩ := (hsource.holder_iff u).mp hholder
        cases u with
        | creator =>
            rw [hcreator] at hinside
            cases hinside
        | created =>
            rw [hcreated] at hinside
            cases hinside
  · have hacts : ∀ {w g}, s.Running w → code tid w (s.pc w).1 = .act g → (s.pc w).2 = .none →
        g s.value.data ≠ none := by
      intro w g hw hact hnone
      have hhere := hvalid.here w hw
      rw [MutexLock.seen_of_none hnone] at hhere
      exact act_ne_none htid hhere hact
    have hgo : ∀ {u}, u ∉ s.sleeping →
        (∀ targets, code tid u (s.pc u).1 = .choose targets → (s.pc u).2 ≠ .none) →
        ∃ a s', a.Works ∧ (machine (MutexLock.code tid (code tid))).step s a = some s' :=
      MutexLock.progress disciplined hsource.toSound choose_out hacts
    by_cases hasleep : Party.creator ∈ s.sleeping
    · cases hholder : s.holder with
      | none =>
          have hcount : 0 < s.value.data.m_count := hattended.of_free hholder hasleep
          have hawake : s.Running .created := created_awake hvalid
          refine hgo (fun hmem => hawake (List.mem_append_left _ hmem)) fun targets hinstr hnone => ?_
          have hhere := hvalid.here .created hawake
          rw [MutexLock.seen_of_none hnone] at hhere
          exact absurd (count_of_choose hinstr hhere) hcount.ne'
      | some u => exact MutexLock.progress_of_held disciplined hsource.toSound choose_out hacts hholder
    · refine hgo hasleep fun targets hinstr hnone => ?_
      obtain ⟨v, hv⟩ := hvalid.exists_at .creator
      rw [MutexLock.seen_of_none hnone] at hv
      exact hplace (returned_of_choose hinstr hv)

/-- The other thread is through before the creator has the mutex. -/
def startAlone : List (Act Party (StartPc × Done)) :=
  List.replicate 8 (.step .created) ++ List.replicate 6 (.step .creator)

theorem start_exact_startAlone :
    ∃ s, (machine (MutexLock.code (fun _ => 7) (code fun _ => 7))).run
        (MutexLock.start startPc ⟨1, 0⟩) startAlone = some s ∧
      (s.pc .creator).1 = .returned ∧ s.value.data.tid_ = 7 ∧
      s.pc .created = (.running, .none) ∧ s.value.m_holder = 0 := by
  cases hrun : (machine (MutexLock.code (fun _ => 7) (code fun _ => 7))).run
      (MutexLock.start startPc ⟨1, 0⟩) startAlone with
  | none =>
      have hsome : ((machine (MutexLock.code (fun _ => 7) (code fun _ => 7))).run
          (MutexLock.start startPc ⟨1, 0⟩) startAlone).isSome = true := by
        decide +kernel
      rw [hrun] at hsome
      cases hsome
  | some s =>
      have hplace : ((machine (MutexLock.code (fun _ => 7) (code fun _ => 7))).run
          (MutexLock.start startPc ⟨1, 0⟩) startAlone).map (fun s => (s.pc .creator).1) =
            some .returned := by
        decide +kernel
      rw [hrun] at hplace
      have hreturned := Option.some.inj hplace
      exact ⟨s, rfl, hreturned, (start_exact (by decide) hrun).2.1 hreturned⟩

end

end Thread

end Qslary.Sync
