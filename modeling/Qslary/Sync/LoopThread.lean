import Qslary.Sync.ThreadStart

/-!
# `EventLoopThread`

`startLoop` waits until the thread that it has started says where its loop is, and that thread
takes the word back when the loop has stopped.  What `startLoop` returns is the loop; but it
does not return once the loop has stopped unseen.
-/

namespace Qslary.Sync

open Qslary.Foundation Qslary.Foundation.Monitor

/-- `loop_`, and `retLoop` of `startLoop`; null is `0`. -/
structure LoopObject where
  loop_ : Nat
  retLoop : Nat

namespace EventLoopThread

/-- The places of `startLoop` behind `thread_.start()`, and those of `threadFunc`. -/
inductive LoopPc where
  | startLock
  | startTest
  | startSleep
  | startRead
  | startUnlock
  | returned
  | callback
  | publishLock
  | publish
  | publishNotify
  | publishUnlock
  | looping
  | withdrawLock
  | withdraw
  | withdrawUnlock
  | ended
  deriving DecidableEq

/-- The callback of the user and the loop take as long as they like. -/
def code (loop : Nat) : Party → LoopPc → Instr LoopObject LoopPc
  | .creator, .startLock => .lock .startTest
  | .creator, .startTest => .act fun v =>
      some (v, if v.loop_ = 0 then .startSleep else .startRead)
  | .creator, .startSleep => .wait .startTest
  | .creator, .startRead => .act fun v => some ({ v with retLoop := v.loop_ }, .startUnlock)
  | .creator, .startUnlock => .unlock .returned
  | .created, .callback => .choose fun pc => pc = .publishLock
  | .created, .publishLock => .lock .publish
  | .created, .publish => .act fun v => some ({ v with loop_ := loop }, .publishNotify)
  | .created, .publishNotify => .notify .publishUnlock
  | .created, .publishUnlock => .unlock .looping
  | .created, .looping => .choose fun pc => pc = .withdrawLock
  | .created, .withdrawLock => .lock .withdraw
  | .created, .withdraw => .act fun v => some ({ v with loop_ := 0 }, .withdrawUnlock)
  | .created, .withdrawUnlock => .unlock .ended
  | _, _ => .choose fun _ => false

def startPc : Party → LoopPc
  | .creator => .startLock
  | .created => .callback

def holds : Party → LoopPc → Bool
  | .creator, .startTest | .creator, .startSleep | .creator, .startRead
  | .creator, .startUnlock => true
  | .created, .publish | .created, .publishNotify | .created, .publishUnlock
  | .created, .withdraw | .created, .withdrawUnlock => true
  | _, _ => false

/-- What is known of the loop. -/
def Known (loop : Nat) : Party → LoopPc → LoopObject → Prop
  | .creator, .startLock, _ => True
  | .creator, .startTest, v => v.loop_ = 0 ∨ v.loop_ = loop
  | .creator, .startSleep, v => v.loop_ = 0
  | .creator, .startRead, v => v.loop_ = loop
  | .creator, .startUnlock, v => v.loop_ = loop ∧ v.retLoop = loop
  | .creator, .returned, v => v.retLoop = loop
  | .created, .callback, v | .created, .publishLock, v | .created, .publish, v
  | .created, .withdrawUnlock, v | .created, .ended, v => v.loop_ = 0
  | .created, .publishNotify, v | .created, .publishUnlock, v | .created, .looping, v
  | .created, .withdrawLock, v | .created, .withdraw, v => v.loop_ = loop
  | _, _, _ => False

def owes : Party → LoopPc → Bool
  | .created, .publishNotify => true
  | _, _ => false

variable {loop : Nat}

theorem disciplined : Disciplined (code loop) holds := by
  rintro (_ | _) pc
  · cases pc with
    | startTest =>
        intro v v' next hact
        cases hact
        split <;> rfl
    | startRead =>
        intro v v' next hact
        cases hact
        rfl
    | _ => simp [code, Instr.Respects, holds]
  · cases pc with
    | publish | withdraw =>
        intro v v' next hact
        cases hact
        rfl
    | _ => simp [code, Instr.Respects, holds]

/-- The words are written with the mutex held. -/
theorem holds_of_act {w : Party} {pc : LoopPc} {f : LoopObject → Option (LoopObject × LoopPc)}
    (h : code loop w pc = .act f) : holds w pc = true := by
  cases w <;> cases pc <;> simp [code, holds] at h ⊢

/-- The creator does not look at `loop_` without the mutex, nor does the other one at `retLoop`. -/
theorem known_of_out {w u : Party} {pc next pc' : LoopPc}
    {f : LoopObject → Option (LoopObject × LoopPc)} {v v' : LoopObject} (hne : u ≠ w)
    (hact : code loop w pc = .act f) (hf : f v = some (v', next))
    (hout : holds u pc' = false) (h : Known loop u pc' v) : Known loop u pc' v' := by
  cases w with
  | creator =>
      cases u with
      | creator => exact absurd rfl hne
      | created =>
          have hsame : v'.loop_ = v.loop_ := by
            cases pc <;> cases hact <;> cases hf <;> rfl
          cases pc' <;> simp_all [Known, holds]
  | created =>
      cases u with
      | created => exact absurd rfl hne
      | creator =>
          have hsame : v'.retLoop = v.retLoop := by
            cases pc <;> cases hact <;> cases hf <;> rfl
          cases pc' <;> simp_all [Known, holds]

theorem outline : Outline (code loop) holds (fun v => v.loop_ = 0 ∨ v.loop_ = loop) (Known loop) where
  disciplined := disciplined
  proved := by
    rintro (_ | _) pc
    · cases pc with
      | startLock => exact fun v _ hfree => hfree
      | startTest =>
          rintro v v' next hact hv
          cases hact
          refine ⟨?_, by simp [holds]⟩
          split
          · assumption
          · exact hv.resolve_left (by assumption)
      | startSleep => exact fun v hv => ⟨.inl hv, fun v' hfree => hfree⟩
      | startRead =>
          rintro v v' next hact hv
          cases hact
          exact ⟨⟨hv, hv⟩, by simp [holds]⟩
      | startUnlock => exact fun v hv => ⟨.inr hv.1, hv.2⟩
      | _ => simp [code, Instr.Proved]
    · cases pc with
      | callback | looping =>
          rintro next v hnext hv
          obtain rfl := of_decide_eq_true hnext
          exact hv
      | publishLock => exact fun v hv _ => hv
      | publish | withdraw =>
          rintro v v' next hact hv
          cases hact
          exact ⟨rfl, by simp [holds]⟩
      | publishNotify => exact fun v hv => hv
      | publishUnlock => exact fun v hv => ⟨.inr hv, hv⟩
      | withdrawLock => exact fun v hv _ => hv
      | withdrawUnlock => exact fun v hv => ⟨.inl hv, hv⟩
      | _ => simp [code, Instr.Proved]
  stable := by
    intro w pc f v v' next hact hf hv u pc' hne hapart hu
    have hout := hapart.resolve_left (by simp [holds_of_act hact])
    exact known_of_out hne hact hf hout hu

theorem creator_of_wait {w : Party} {pc next : LoopPc} (h : code loop w pc = .wait next) :
    w = .creator ∧ pc = .startSleep := by
  cases w <;> cases pc <;> cases h
  exact ⟨rfl, rfl⟩

theorem serves : Serves (code loop) holds (Known loop) (fun v => v.loop_ = 0)
    (fun w pc _ => owes w pc = true) where
  unlock := by
    intro w pc v next hinstr hv howes
    cases w <;> cases pc <;> cases howes
    cases hinstr
  wait := by
    intro w pc v next hinstr hv
    obtain ⟨rfl, rfl⟩ := creator_of_wait hinstr
    exact hv
  notify := by
    intro w pc next hinstr w u pc' pc'' next next' hw hu
    rw [(creator_of_wait hw).1, (creator_of_wait hu).1]
  act := by
    intro w pc f v v' next hinstr hf hv hheld h
    cases w <;> cases pc <;> cases hinstr <;> cases hf
    case creator.startTest | creator.startRead => exact .inl (h.resolve_right nofun)
    case created.publish => exact .inr rfl
    case created.withdraw => exact .inl rfl
  apart := by
    intro w pc f v v' next hinstr hf hv hout
    exact absurd (hout.symm.trans (holds_of_act hinstr)) nofun
  choose := by
    intro w pc v targets next hinstr hnext howes
    cases w <;> cases pc <;> cases howes
    cases hinstr

/-! ## The loop and its thread -/

variable {s s' : State Party LoopObject LoopPc}

theorem created_awake
    (hvalid : Valid (code loop) holds (fun v => v.loop_ = 0 ∨ v.loop_ = loop) (Known loop) s) :
    s.Running .created := by
  intro haway
  obtain ⟨next, hinstr⟩ := hvalid.waits .created haway
  exact absurd (creator_of_wait hinstr).1 nofun

/-- Behind the test the creator has the mutex, so that the other thread is in its loop. -/
theorem looping_of_startRead (hloop : loop ≠ 0)
    (hvalid : Valid (code loop) holds (fun v => v.loop_ = 0 ∨ v.loop_ = loop) (Known loop) s)
    (hplace : s.pc .creator = .startRead) :
    s.pc .created = .looping ∨ s.pc .created = .withdrawLock := by
  have hcreator : s.Running .creator := by
    intro haway
    obtain ⟨next, hinstr⟩ := hvalid.waits .creator haway
    rw [hplace] at hinstr
    cases hinstr
  have hheld : holds .creator (s.pc .creator) = true := by
    rw [hplace]
    rfl
  have hread : s.value.loop_ = loop := by
    have hhere := hvalid.here .creator hcreator
    rwa [hplace] at hhere
  have hawake := created_awake hvalid
  have hhere := hvalid.here .created hawake
  have hout : holds .created (s.pc .created) ≠ true :=
    fun hboth => absurd (hvalid.unique hcreator hheld hawake hboth) nofun
  cases hother : s.pc .created with
  | looping => exact .inl rfl
  | withdrawLock => exact .inr rfl
  | callback | publishLock | ended =>
      rw [hother] at hhere
      exact absurd (hread.symm.trans hhere) hloop
  | publish | publishNotify | publishUnlock | withdraw | withdrawUnlock =>
      rw [hother] at hout
      exact absurd rfl hout
  | _ =>
      rw [hother] at hhere
      exact hhere.elim

/-- The loop has stopped before the creator has seen it. -/
def Missed (s : State Party LoopObject LoopPc) : Prop :=
  s.pc .created = .ended ∧
    (s.pc .creator = .startLock ∨ s.pc .creator = .startTest ∨ s.pc .creator = .startSleep)

theorem missed_of_steps
    (hvalid : Valid (code loop) holds (fun v => v.loop_ = 0 ∨ v.loop_ = loop) (Known loop) s)
    (h : Missed s) (hstep : Steps (code loop) s s') : Missed s' := by
  obtain ⟨hended, hcreator⟩ := h
  have hnone : s.value.loop_ = 0 := by
    have hhere := hvalid.here .created (created_awake hvalid)
    rwa [hended] at hhere
  rcases hstep.moves with hsame | ⟨w, next, hnext, hmoved⟩
  · rw [Missed, hsame]
    exact ⟨hended, hcreator⟩
  · cases w with
    | created =>
        rw [hended] at hnext
        cases hnext
    | creator =>
        refine ⟨?_, ?_⟩
        · rw [hmoved, goto_pc_of_ne (by decide)]
          exact hended
        · rw [hmoved, goto_pc_self]
          rcases hcreator with hplace | hplace | hplace <;> rw [hplace] at hnext
          · exact .inr (.inl hnext)
          · obtain ⟨v', hact⟩ := hnext
            cases hact
            exact .inr (.inr (if_pos hnone))
          · exact .inr (.inl hnext)

theorem choose_out {w : Party} {pc : LoopPc} {targets : LoopPc → Bool}
    (h : code loop w pc = .choose targets) : holds w pc = false := by
  cases w <;> cases pc <;> first | rfl | cases h

theorem act_ne_none {w : Party} {pc : LoopPc} {f : LoopObject → Option (LoopObject × LoopPc)}
    (hact : code loop w pc = .act f) (v : LoopObject) : f v ≠ none := by
  cases w <;> cases pc <;> cases hact <;> exact nofun

theorem returned_of_choose {pc : LoopPc} {targets : LoopPc → Bool} {v : LoopObject}
    (h : code loop .creator pc = .choose targets) (hv : Known loop .creator pc v) :
    pc = .returned := by
  cases pc with
  | returned => rfl
  | startLock | startTest | startSleep | startRead | startUnlock => cases h
  | _ => exact hv.elim

theorem loop_of_choose {pc : LoopPc} {targets : LoopPc → Bool} {v : LoopObject}
    (h : code loop .created pc = .choose targets) (hv : Known loop .created pc v) :
    pc = .callback ∨ pc = .ended ∨ v.loop_ = loop := by
  cases pc with
  | callback => exact .inl rfl
  | looping => exact .inr (.inr hv)
  | ended => exact .inr (.inl rfl)
  | startLock | startTest | startSleep | startRead | startUnlock | returned => exact hv.elim
  | _ => cases h

/-! ## `startLoop` with its mutex -/

section

variable {tid : Party → Int} {acts : List (Act Party (LoopPc × Done))}
  {s : State Party (Locked LoopObject) (LoopPc × Done)}

theorem client_of_run
    (hrun : (machine (MutexLock.code tid (code loop))).run (MutexLock.start startPc ⟨0, 0⟩)
      acts = some s) :
    Valid (code loop) holds (fun v => v.loop_ = 0 ∨ v.loop_ = loop) (Known loop)
        (MutexLock.seen (code loop) s) ∧
      Attended (fun v => v.loop_ = 0) (fun w pc _ => owes w pc = true)
        (MutexLock.seen (code loop) s) := by
  obtain ⟨acts', hclient⟩ := MutexLock.reachable_seen hrun
  have hstart : Valid (code loop) holds (fun v => v.loop_ = 0 ∨ v.loop_ = loop) (Known loop)
      ⟨startPc, none, [], [], ⟨0, 0⟩⟩ :=
    valid_start (by rintro (_ | _) <;> rfl) (by rintro (_ | _) <;> trivial) (.inl rfl)
  have hattended : Attended (fun v : LoopObject => v.loop_ = 0) (fun w pc _ => owes w pc = true)
      ⟨startPc, none, [], [], ⟨0, 0⟩⟩ := nofun
  exact ⟨outline.valid hstart hclient, outline.attended serves hstart hattended hclient⟩

theorem missed_of_run
    (hvalid : Valid (code loop) holds (fun v => v.loop_ = 0 ∨ v.loop_ = loop) (Known loop)
      (MutexLock.seen (code loop) s)) (h : Missed (MutexLock.seen (code loop) s))
    {acts' : List (Act Party (LoopPc × Done))}
    {s' : State Party (Locked LoopObject) (LoopPc × Done)}
    (hrun : (machine (MutexLock.code tid (code loop))).run s acts' = some s') :
    Missed (MutexLock.seen (code loop) s') := by
  obtain ⟨acts, hclient⟩ := MutexLock.reachable_seen hrun
  have hstep : ∀ {s a s'}, Valid (code loop) holds (fun v => v.loop_ = 0 ∨ v.loop_ = loop)
        (Known loop) s ∧ Missed s → (machine (code loop)).step s a = some s' →
      Valid (code loop) holds (fun v => v.loop_ = 0 ∨ v.loop_ = loop) (Known loop) s' ∧
        Missed s' :=
    fun hs hstep => ⟨(steps_of_step hstep).valid outline hs.1,
      missed_of_steps hs.1 hs.2 (steps_of_step hstep)⟩
  exact (Machine.run_invariant hstep ⟨hvalid, h⟩ hclient).2

theorem fst_of_view {place : LoopPc × Done} {pc : LoopPc} (hpc : pc = .looping ∨ pc = .withdrawLock)
    (h : MutexLock.view (code loop) .created place = pc) : place.1 = pc := by
  obtain ⟨pc', done⟩ := place
  rcases hpc with rfl | rfl <;> cases done <;> cases pc' <;>
    simp [MutexLock.view, code] at h ⊢

theorem missed_of_unread {place : LoopPc × Done}
    (h : place.1 ∈ [LoopPc.startLock, .startTest, .startSleep]) :
    MutexLock.view (code loop) .creator place = .startLock ∨
      MutexLock.view (code loop) .creator place = .startTest ∨
      MutexLock.view (code loop) .creator place = .startSleep := by
  obtain ⟨pc, done⟩ := place
  simp only [List.mem_cons, List.not_mem_nil, or_false] at h
  rcases h with rfl | rfl | rfl <;> cases done <;> simp [MutexLock.view, code]

/-- What `startLoop` returns is the loop, which runs when it is read; while it runs or is on its
way there, one of the two threads can go on; and once it has stopped without being read,
`startLoop` never returns. -/
theorem startLoop_exact (hloop : loop ≠ 0)
    (hrun : (machine (MutexLock.code tid (code loop))).run (MutexLock.start startPc ⟨0, 0⟩)
      acts = some s) :
    ((s.pc .creator).1 = .returned → s.value.data.retLoop = loop) ∧
      (s.pc .creator = (.startRead, .none) →
        (s.pc .created).1 = .looping ∨ (s.pc .created).1 = .withdrawLock) ∧
      ((s.pc .creator).1 ≠ .returned → (s.pc .created).1 ≠ .callback →
        (s.pc .created).1 ≠ .ended →
        ∃ a s', a.Works ∧ (machine (MutexLock.code tid (code loop))).step s a = some s') ∧
      ((s.pc .created).1 = .ended → (s.pc .creator).1 ∈ [.startLock, .startTest, .startSleep] →
        ∀ acts' s', (machine (MutexLock.code tid (code loop))).run s acts' = some s' →
          (s'.pc .creator).1 ≠ .returned) := by
  obtain ⟨hvalid, hattended⟩ := client_of_run hrun
  have hsource := MutexLock.valid_of_run disciplined (by rintro (_ | _) <;> rfl) hrun
  have hstays : ∀ {w pc done}, (∀ next, code loop w pc ≠ .lock next) →
      (∀ next, code loop w pc ≠ .wait next) → MutexLock.view (code loop) w (pc, done) = pc := by
    intro w pc done hlock hwait
    cases done <;> cases hinstr : code loop w pc <;> simp_all [MutexLock.view]
  refine ⟨fun hplace => ?_, fun hplace => ?_, fun hbusy hcallback hended => ?_,
    fun hended hunread acts' s' hrun' hreturned => ?_⟩
  · have hat : (MutexLock.seen (code loop) s).pc .creator = .returned := by
      change MutexLock.view (code loop) .creator (s.pc .creator) = _
      rw [show s.pc .creator = (.returned, (s.pc .creator).2) from Prod.ext hplace rfl]
      exact hstays (by simp [code]) (by simp [code])
    have hawake : (MutexLock.seen (code loop) s).Running .creator := by
      intro haway
      obtain ⟨next, hinstr⟩ := hvalid.waits .creator haway
      rw [hat] at hinstr
      cases hinstr
    have hhere := hvalid.here .creator hawake
    rwa [hat] at hhere
  · have hat : (MutexLock.seen (code loop) s).pc .creator = .startRead := by
      rw [MutexLock.seen_of_none (congrArg Prod.snd hplace), hplace]
    exact (looping_of_startRead hloop hvalid hat).imp (fst_of_view (.inl rfl))
      (fst_of_view (.inr rfl))
  · have hacts : ∀ {w g}, s.Running w → code loop w (s.pc w).1 = .act g → (s.pc w).2 = .none →
        g s.value.data ≠ none :=
      fun _ hact _ => act_ne_none hact s.value.data
    by_cases hasleep : Party.creator ∈ s.sleeping
    · cases hholder : s.holder with
      | none =>
          have hnone : s.value.data.loop_ = 0 := hattended.of_free hholder hasleep
          have hawake : s.Running .created := created_awake hvalid
          refine MutexLock.progress disciplined hsource.toSound choose_out hacts
            (fun hmem => hawake (List.mem_append_left _ hmem)) fun targets hinstr hdone => ?_
          have hhere := hvalid.here .created hawake
          rw [MutexLock.seen_of_none hdone] at hhere
          rcases loop_of_choose hinstr hhere with hplace | hplace | hsome
          · exact hcallback hplace
          · exact hended hplace
          · exact hloop (hsome.symm.trans hnone)
      | some u =>
          exact MutexLock.progress_of_held disciplined hsource.toSound choose_out hacts hholder
    · refine MutexLock.progress disciplined hsource.toSound choose_out hacts hasleep
        fun targets hinstr hdone => ?_
      obtain ⟨v, hv⟩ := hvalid.exists_at .creator
      rw [MutexLock.seen_of_none hdone] at hv
      exact hbusy (returned_of_choose hinstr hv)
  · have hmissed : Missed (MutexLock.seen (code loop) s) := by
      refine ⟨?_, ?_⟩
      · change MutexLock.view (code loop) .created (s.pc .created) = _
        rw [show s.pc .created = (.ended, (s.pc .created).2) from Prod.ext hended rfl]
        exact hstays (by simp [code]) (by simp [code])
      · exact missed_of_unread hunread
    have hnever := (missed_of_run hvalid hmissed hrun').2
    have hat : (MutexLock.seen (code loop) s').pc .creator = .returned := by
      change MutexLock.view (code loop) .creator (s'.pc .creator) = _
      rw [show s'.pc .creator = (.returned, (s'.pc .creator).2) from Prod.ext hreturned rfl]
      exact hstays (by simp [code]) (by simp [code])
    rw [hat] at hnever
    rcases hnever with h | h | h <;> cases h

/-- The loop is there before `startLoop` has the mutex. -/
def startLoopLate : List (Act Party (LoopPc × Done)) :=
  .jump .created (.publishLock, .none) :: List.replicate 6 (.step .created) ++
    List.replicate 6 (.step .creator)

theorem startLoop_exact_startLoopLate :
    ∃ s, (machine (MutexLock.code (fun _ => 7) (code 4096))).run
        (MutexLock.start startPc ⟨0, 0⟩) startLoopLate = some s ∧
      (s.pc .creator).1 = .returned ∧ s.value.data.retLoop = 4096 := by
  cases hrun : (machine (MutexLock.code (fun _ => 7) (code 4096))).run
      (MutexLock.start startPc ⟨0, 0⟩) startLoopLate with
  | none =>
      have hsome : ((machine (MutexLock.code (fun _ => 7) (code 4096))).run
          (MutexLock.start startPc ⟨0, 0⟩) startLoopLate).isSome = true := by
        decide +kernel
      rw [hrun] at hsome
      cases hsome
  | some s =>
      have hplace : ((machine (MutexLock.code (fun _ => 7) (code 4096))).run
          (MutexLock.start startPc ⟨0, 0⟩) startLoopLate).map (fun s => (s.pc .creator).1) =
            some .returned := by
        decide +kernel
      rw [hrun] at hplace
      have hreturned := Option.some.inj hplace
      exact ⟨s, rfl, hreturned, (startLoop_exact (by decide) hrun).1 hreturned⟩

end

end EventLoopThread

end Qslary.Sync
