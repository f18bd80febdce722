import Qslary.Descriptors.Model

/-!
# The manager as a partial map

Every call that stays in bounds acts on the map from descriptors to contexts as on a
partial function.  `delFdContext` compares with `>` where `fds_[fd]` needs `>=`, so it
leaves the vector for the descriptor that equals the size.
-/

namespace Qslary.Descriptors

open Qslary.Foundation

namespace FdContextManager

/--
The vector never gets smaller than it is made, nor close to the end of `size_t`, and its
pointers are to objects.
-/
structure Inv (m : FdContextManager) : Prop where
  size_ge : 64 ≤ m.fds.length
  size_lt : m.fds.length < 2 ^ 32
  lt_of_contextOf : ∀ {fd c}, m.contextOf fd = some c → c < m.objects.length

theorem contextOf_new (kernel : Kernel) (fd : Int) : (new kernel).contextOf fd = none := by
  unfold contextOf
  split
  · rw [new, List.getElem?_replicate]
    split
    · rfl
    · rfl
  · rfl

theorem new_inv (kernel : Kernel) : (new kernel).Inv := by
  refine ⟨by simp [new], by simp [new], fun {fd c} h => ?_⟩
  rw [contextOf_new] at h
  cases h

variable {m m' : FdContextManager} {fd : Int} {c : Nat}

theorem sizeT_eq (hfd : 0 ≤ fd) (hlt : fd < 2 ^ 31) : sizeT fd = fd.toNat := by
  unfold sizeT
  omega

theorem sizeT_neg_one : sizeT (-1) = 2 ^ 64 - 1 := rfl

theorem contextOf_eq (hfd : 0 ≤ fd) : m.contextOf fd = (m.fds[fd.toNat]?).join := by
  rw [contextOf, if_pos hfd]

theorem join_resize {fds : List Ptr} {n : Nat} (h : fds.length ≤ n) (i : Nat) :
    ((Block.resize fds n none)[i]?).join = (fds[i]?).join := by
  rw [Block.resize, List.take_of_length_le h]
  by_cases hi : i < fds.length
  · rw [List.getElem?_append_left hi]
  · rw [List.getElem?_append_right (Nat.le_of_not_lt hi), List.getElem?_replicate,
      List.getElem?_eq_none (Nat.le_of_not_lt hi)]
    split
    · rfl
    · rfl

theorem join_set (fds : List Ptr) {i : Nat} (hi : i < fds.length) (p : Ptr) (j : Nat) :
    ((fds.set i p)[j]?).join = if j = i then p else (fds[j]?).join := by
  rw [List.getElem?_set]
  by_cases hij : i = j
  · subst hij
    rw [if_pos rfl, if_pos rfl, if_pos hi]
    rfl
  · rw [if_neg hij, if_neg fun h => hij h.symm]

/-! ## The sections -/

theorem lookup_eq (hfd : 0 ≤ fd) (hlt : fd < 2 ^ 31) (autoCreat : Bool) :
    m.lookup fd autoCreat =
      if (m.contextOf fd).isSome || (decide (fd.toNat < m.fds.length) && !autoCreat) then
        some (m.contextOf fd)
      else none := by
  rw [lookup, sizeT_eq hfd hlt, contextOf_eq hfd]
  by_cases hin : fd.toNat < m.fds.length
  · simp [hin]
  · simp [hin]

/-- The section under the write lock puts a new object into the place of the descriptor. -/
structure Creates (m m' : FdContextManager) (fd : Int) : Prop where
  inv : m'.Inv
  contextOf_eq : ∀ other, m'.contextOf other =
    if other = fd then some m.objects.length else m.contextOf other
  objects_eq : m'.objects = m.objects ++ [(FdContext.new fd m.kernel).1]

/-- Writing one place of the vector changes the map at one descriptor. -/
theorem contextOf_set {fds : List Ptr} {objects : List FdContext} {kernel : Kernel} {p : Ptr}
    (hfd : 0 ≤ fd) (hin : fd.toNat < fds.length)
    (hsame : ∀ i : Nat, (fds[i]?).join = (m.fds[i]?).join) (other : Int) :
    contextOf ⟨fds.set fd.toNat p, objects, kernel⟩ other =
      if other = fd then p else m.contextOf other := by
  by_cases hother : 0 ≤ other
  · rw [FdContextManager.contextOf_eq hother, FdContextManager.contextOf_eq hother,
      join_set _ hin, hsame]
    by_cases heq : other = fd
    · rw [if_pos heq, if_pos (congrArg Int.toNat heq)]
    · rw [if_neg heq, if_neg (by omega)]
  · rw [contextOf, contextOf, if_neg hother, if_neg hother, if_neg (by omega)]

/-- What the vector has grown to before the new pointer is stored. -/
theorem grown_of_inv (h : m.Inv) (hfd : 0 ≤ fd) (hlt : fd < 2 ^ 31) {fds : List Ptr}
    (hfds : (if m.fds.length ≤ fd.toNat then Block.resize m.fds (fd * 3 / 2).toNat none
      else m.fds) = fds) :
    fd.toNat < fds.length ∧ 64 ≤ fds.length ∧ fds.length < 2 ^ 32 ∧
      ∀ i : Nat, (fds[i]?).join = (m.fds[i]?).join := by
  have hge := h.size_ge
  have hsmall := h.size_lt
  split at hfds
  · rename_i hle
    have hgrows : m.fds.length ≤ (fd * 3 / 2).toNat := by omega
    have hlength : fds.length = (fd * 3 / 2).toNat := by rw [← hfds, Block.length_resize]
    refine ⟨by omega, by omega, by omega, fun i => ?_⟩
    rw [← hfds, join_resize hgrows]
  · subst hfds
    exact ⟨by omega, hge, hsmall, fun _ => rfl⟩

theorem create_eq (h : m.Inv) (hfd : 0 ≤ fd) (hlt : fd < 2 ^ 31) :
    ∃ m', m.create fd = .ok (m', m.objects.length) ∧ Creates m m' fd := by
  unfold create
  rw [sizeT_eq hfd hlt]
  generalize hfds : (if m.fds.length ≤ fd.toNat then
    Block.resize m.fds (fd * 3 / 2).toNat none else m.fds) = fds
  obtain ⟨hin, hge, hsmall, hsame⟩ := grown_of_inv h hfd hlt hfds
  generalize hnew : FdContext.new fd m.kernel = made
  obtain ⟨ctx, kernel⟩ := made
  have hset : ∀ other,
      contextOf ⟨fds.set fd.toNat (some m.objects.length), m.objects ++ [ctx], kernel⟩ other =
        if other = fd then some m.objects.length else m.contextOf other :=
    contextOf_set hfd hin hsame
  refine ⟨_, if_pos hin, ⟨?_, ?_, fun {other c} hc => ?_⟩, hset, by rw [hnew]⟩
  · rw [List.length_set]
    exact hge
  · rw [List.length_set]
    exact hsmall
  · rw [List.length_append, List.length_singleton]
    rw [hset] at hc
    split at hc
    · cases hc
      exact Nat.lt_succ_self _
    · exact Nat.lt_succ_of_lt (h.lt_of_contextOf hc)

/-! ## Whole calls -/

theorem getFdContext_neg_one (m : FdContextManager) (autoCreat : Bool) :
    m.getFdContext (-1) autoCreat = .ok (m, none) := rfl

theorem getFdContext_some (hfd : 0 ≤ fd) (hlt : fd < 2 ^ 31) (hc : m.contextOf fd = some c)
    (autoCreat : Bool) : m.getFdContext fd autoCreat = .ok (m, some c) := by
  rw [getFdContext, if_neg (by omega), lookup_eq hfd hlt, hc]
  rfl

theorem getFdContext_none (hfd : 0 ≤ fd) (hlt : fd < 2 ^ 31) (hc : m.contextOf fd = none) :
    m.getFdContext fd false = .ok (m, none) := by
  rw [getFdContext, if_neg (by omega), lookup_eq hfd hlt, hc]
  split
  · rename_i found hfound
    obtain ⟨-, heq⟩ := Option.ite_none_right_eq_some.mp hfound
    rw [← Option.some.inj heq]
  · rfl

theorem getFdContext_create (h : m.Inv) (hfd : 0 ≤ fd) (hlt : fd < 2 ^ 31)
    (hc : m.contextOf fd = none) :
    ∃ m', m.getFdContext fd true = .ok (m', some m.objects.length) ∧ Creates m m' fd := by
  obtain ⟨m', hcreate, hcreates⟩ := create_eq h hfd hlt
  refine ⟨m', ?_, hcreates⟩
  rw [getFdContext, if_neg (by omega), lookup_eq hfd hlt, hc]
  simp [hcreate, bind, Except.bind]

/-- A deletion that stays in the vector empties one place, or does nothing. -/
structure Deletes (m m' : FdContextManager) (fd : Int) : Prop where
  inv : m'.Inv
  contextOf_eq : ∀ other, m'.contextOf other = if other = fd then none else m.contextOf other
  objects_eq : m'.objects = m.objects

theorem Deletes.refl (h : m.Inv) (hc : m.contextOf fd = none) : Deletes m m fd := by
  refine ⟨h, fun other => ?_, rfl⟩
  split
  · rename_i heq
    rw [heq, hc]
  · rfl

theorem delFdContext_eq (h : m.Inv) (hge : -1 ≤ fd) (hlt : fd < 2 ^ 31)
    (hne : fd ≠ m.fds.length) : ∃ m', m.delFdContext fd = .ok m' ∧ Deletes m m' fd := by
  have hsize := h.size_lt
  by_cases hneg : fd = -1
  · subst hneg
    refine ⟨m, ?_, .refl h rfl⟩
    rw [delFdContext, sizeT_neg_one, if_pos (by omega)]
  have hfd : 0 ≤ fd := by omega
  rw [delFdContext, sizeT_eq hfd hlt]
  by_cases hin : fd.toNat < m.fds.length
  · have hset : ∀ other, contextOf { m with fds := m.fds.set fd.toNat none } other =
        if other = fd then none else m.contextOf other := contextOf_set hfd hin fun _ => rfl
    rw [if_neg (by omega), if_pos hin]
    refine ⟨_, rfl, ⟨?_, ?_, fun {other c} hc => ?_⟩, hset, rfl⟩
    · rw [List.length_set]
      exact h.size_ge
    · rw [List.length_set]
      exact h.size_lt
    · rw [hset] at hc
      split at hc
      · cases hc
      · exact h.lt_of_contextOf hc
  · rw [if_pos (by omega)]
    refine ⟨m, rfl, .refl h ?_⟩
    rw [contextOf_eq hfd, List.getElem?_eq_none (by omega)]
    rfl

theorem delFdContext_size (hlt : fd < 2 ^ 31) (heq : fd = m.fds.length) :
    m.delFdContext fd = .error .outOfBounds := by
  rw [delFdContext, sizeT_eq (by omega) hlt, if_neg (by omega), if_neg (by omega)]

end FdContextManager

/-! ## Sequences of calls -/

/-- An `int` from -1 on. -/
structure Fd where
  val : Int
  ge : -1 ≤ val
  lt : val < 2 ^ 31
  deriving DecidableEq

theorem Fd.ext {fd other : Fd} (h : fd.val = other.val) : fd = other := by
  cases fd
  cases other
  cases h
  rfl

inductive Call where
  | getFdContext (fd : Fd) (autoCreat : Bool)
  | delFdContext (fd : Fd)
  deriving DecidableEq

def Call.fd : Call → Fd
  | .getFdContext fd _ => fd
  | .delFdContext fd => fd

namespace FdContextManager

def call (m : FdContextManager) : Call → Except Fault (FdContextManager × Ptr)
  | .getFdContext fd autoCreat => m.getFdContext fd.val autoCreat
  | .delFdContext fd => do
      let m ← m.delFdContext fd.val
      .ok (m, none)

/-- What the manager has for a descriptor: the pointer, and the object it points to. -/
def context (m : FdContextManager) (fd : Int) : Ptr × Option FdContext :=
  (m.contextOf fd, (m.contextOf fd).bind (m.objects[·]?))

end FdContextManager

def machine : Machine FdContextManager Call Fault where
  guard _ _ := true
  exec m call := (m.call call).map Prod.fst

/-- What a partial map from descriptors to contexts does along a sequence of calls. -/
structure IsPartialMap (kernel : Kernel) (calls : List Call) : Prop where
  inBounds : ∃ m, machine.run (.new kernel) calls = some m
  creates : ∀ before fd after m, calls = before ++ .getFdContext fd true :: after → 0 ≤ fd.val →
    machine.run (.new kernel) before = some m →
    ∃ m' c, m.getFdContext fd.val true = .ok (m', some c) ∧
      ∀ between autoCreat rest later, after = between ++ .getFdContext fd autoCreat :: rest →
        .delFdContext fd ∉ between → machine.run m' between = some later →
        later.getFdContext fd.val autoCreat = .ok (later, some c)
  absent : ∀ before fd after m, calls = before ++ .getFdContext fd false :: after →
    machine.run (.new kernel) before = some m → m.contextOf fd.val = none →
    m.getFdContext fd.val false = .ok (m, none)
  deletes : ∀ before fd after m, calls = before ++ .delFdContext fd :: after →
    machine.run (.new kernel) before = some m →
    ∃ m', m.delFdContext fd.val = .ok m' ∧ m'.contextOf fd.val = none
  frame : ∀ before call after m m' p, calls = before ++ call :: after →
    machine.run (.new kernel) before = some m → m.call call = .ok (m', p) →
    ∀ other, other ≠ call.fd.val → m'.context other = m.context other

/-- Only descriptors other than the size of the vector are deleted. -/
def Call.inBounds (m : FdContextManager) : Call → Prop
  | .getFdContext _ _ => True
  | .delFdContext fd => fd.val ≠ m.fds.length

section

variable {m m' : FdContextManager} {call : Call} {p : Ptr} {kernel : Kernel} {calls : List Call}
variable {fd : Fd} {c : Nat}

theorem step_eq_some_iff :
    machine.step m call = some m' ↔ ∃ p, m.call call = .ok (m', p) := by
  rw [Machine.step_eq_some_iff]
  show true = true ∧ (m.call call).map Prod.fst = .ok m' ↔ _
  cases h : m.call call with
  | error fault => simp [Except.map]
  | ok result =>
      obtain ⟨made, q⟩ := result
      simp [Except.map]

/-- What a call in bounds does to the map. -/
structure Acts (m m' : FdContextManager) (call : Call) (p : Ptr) : Prop where
  inv : m'.Inv
  frame : ∀ other, other ≠ call.fd.val → m'.context other = m.context other
  keeps : ∀ c, m.contextOf call.fd.val = some c → (∀ fd, call ≠ .delFdContext fd) →
    m'.contextOf call.fd.val = some c
  creates : ∀ fd, call = .getFdContext fd true → 0 ≤ fd.val →
    ∃ c, p = some c ∧ m'.contextOf fd.val = some c
  deletes : ∀ fd, call = .delFdContext fd → m'.contextOf fd.val = none

theorem Acts.unchanged (h : m.Inv) {autoCreat : Bool}
    (hp : autoCreat = true → 0 ≤ fd.val → ∃ c, p = some c ∧ m.contextOf fd.val = some c) :
    Acts m m (.getFdContext fd autoCreat) p := by
  refine ⟨h, fun _ _ => rfl, fun c hc _ => hc, fun fd heq hfd => ?_, fun fd heq => ?_⟩
  · cases heq
    exact hp rfl hfd
  · cases heq

/-- Contexts of other descriptors stay, also when a new object is made. -/
theorem context_eq_of_contextOf (h : m.Inv) {made : List FdContext}
    (hobjects : m'.objects = m.objects ++ made) {other : Int}
    (hsame : m'.contextOf other = m.contextOf other) : m'.context other = m.context other := by
  rw [FdContextManager.context, FdContextManager.context, hsame, hobjects]
  congr 1
  cases hc : m.contextOf other with
  | none => rfl
  | some c =>
      show (m.objects ++ made)[c]? = m.objects[c]?
      rw [List.getElem?_append_left (h.lt_of_contextOf hc)]

theorem acts_of_create (h : m.Inv) (hnone : m.contextOf fd.val = none)
    (hcreates : m.Creates m' fd.val) :
    Acts m m' (.getFdContext fd true) (some m.objects.length) := by
  refine ⟨hcreates.inv, fun other hne => ?_, fun c hc _ => ?_, fun fd heq _ => ?_, fun fd heq => ?_⟩
  · refine context_eq_of_contextOf h hcreates.objects_eq ?_
    exact (hcreates.contextOf_eq other).trans (if_neg hne)
  · cases hnone.symm.trans hc
  · cases heq
    refine ⟨_, rfl, ?_⟩
    rw [hcreates.contextOf_eq, if_pos rfl]
  · cases heq

theorem acts_of_delete (h : m.Inv) (hdeletes : m.Deletes m' fd.val) :
    Acts m m' (.delFdContext fd) none := by
  refine ⟨hdeletes.inv, fun other hne => ?_, fun c _ hget => absurd rfl (hget fd),
    fun fd heq => ?_, fun fd heq => ?_⟩
  · have hobjects : m'.objects = m.objects ++ [] := by
      rw [hdeletes.objects_eq, List.append_nil]
    exact context_eq_of_contextOf h hobjects ((hdeletes.contextOf_eq other).trans (if_neg hne))
  · cases heq
  · cases heq
    rw [hdeletes.contextOf_eq, if_pos rfl]

/-- A call in bounds does not fault, and acts on the map. -/
theorem call_acts (h : m.Inv) (hcall : call.inBounds m) :
    ∃ m' p, m.call call = .ok (m', p) ∧ Acts m m' call p := by
  cases call with
  | getFdContext fd autoCreat =>
      by_cases hneg : fd.val = -1
      · refine ⟨m, none, ?_, .unchanged h fun _ hfd => by omega⟩
        rw [FdContextManager.call, hneg, FdContextManager.getFdContext_neg_one]
      have hfd : 0 ≤ fd.val := by
        have := fd.ge
        omega
      cases hc : m.contextOf fd.val with
      | some c =>
          exact ⟨m, some c, FdContextManager.getFdContext_some hfd fd.lt hc autoCreat,
            .unchanged h fun _ _ => ⟨c, rfl, hc⟩⟩
      | none =>
          cases autoCreat with
          | false =>
              exact ⟨m, none, FdContextManager.getFdContext_none hfd fd.lt hc, .unchanged h nofun⟩
          | true =>
              obtain ⟨m', hget, hcreates⟩ := FdContextManager.getFdContext_create h hfd fd.lt hc
              exact ⟨m', _, hget, acts_of_create h hc hcreates⟩
  | delFdContext fd =>
      obtain ⟨m', hdel, hdeletes⟩ := FdContextManager.delFdContext_eq h fd.ge fd.lt hcall
      refine ⟨m', none, ?_, acts_of_delete h hdeletes⟩
      rw [FdContextManager.call, hdel]
      rfl

theorem not_step_of_size (hcall : ¬ call.inBounds m) : machine.step m call = none := by
  cases call with
  | getFdContext fd autoCreat => exact absurd trivial hcall
  | delFdContext fd =>
      have hdel := FdContextManager.delFdContext_size fd.lt (not_not.mp hcall)
      cases hstep : machine.step m (.delFdContext fd) with
      | none => rfl
      | some m' =>
          obtain ⟨p, hok⟩ := step_eq_some_iff.mp hstep
          rw [FdContextManager.call, hdel] at hok
          cases hok

theorem acts_of_step (h : m.Inv) (hstep : machine.step m call = some m') :
    ∃ p, m.call call = .ok (m', p) ∧ Acts m m' call p := by
  have hcall : call.inBounds m := by
    by_contra hcall
    rw [not_step_of_size hcall] at hstep
    cases hstep
  obtain ⟨made, p, hmade, hacts⟩ := call_acts h hcall
  obtain ⟨q, hok⟩ := step_eq_some_iff.mp hstep
  obtain ⟨rfl, rfl⟩ := Prod.mk.inj (Except.ok.inj (hok.symm.trans hmade))
  exact ⟨q, hok, hacts⟩

theorem inv_of_run (hrun : machine.run (.new kernel) calls = some m) : m.Inv := by
  have hpreserved : ∀ {m call m'}, FdContextManager.Inv m → machine.step m call = some m' →
      FdContextManager.Inv m' := by
    intro m call m' h hstep
    obtain ⟨p, -, hacts⟩ := acts_of_step h hstep
    exact hacts.inv
  exact Machine.run_invariant hpreserved (FdContextManager.new_inv kernel) hrun

/-- A run that deletes other descriptors keeps the context of this one. -/
theorem contextOf_of_run (h : m.Inv) (hc : m.contextOf fd.val = some c)
    (hdel : .delFdContext fd ∉ calls) (hrun : machine.run m calls = some m') :
    m'.contextOf fd.val = some c := by
  induction calls generalizing m with
  | nil =>
      cases hrun
      exact hc
  | cons call calls ih =>
      obtain ⟨mid, hstep, hrest⟩ := machine.run_cons_iff.mp hrun
      obtain ⟨p, -, hacts⟩ := acts_of_step h hstep
      refine ih hacts.inv ?_ (fun hmem => hdel (List.mem_cons_of_mem call hmem)) hrest
      by_cases hfd : call.fd = fd
      · subst hfd
        refine hacts.keeps c hc fun fd heq => hdel ?_
        subst heq
        exact List.mem_cons_self
      · have hne : fd.val ≠ call.fd.val := by
          intro heq
          exact hfd (Fd.ext heq.symm)
        have hframe := hacts.frame fd.val hne
        rw [← hc]
        exact congrArg Prod.fst hframe

theorem inBounds_of_run (hrun : ∃ m', machine.run m calls = some m') :
    machine.Meets (fun m call => call.inBounds m) m calls := by
  induction calls generalizing m with
  | nil => trivial
  | cons call calls ih =>
      obtain ⟨m', hrun⟩ := hrun
      obtain ⟨mid, hstep, hrest⟩ := machine.run_cons_iff.mp hrun
      refine ⟨?_, fun next hnext => ?_⟩
      · by_contra hcall
        rw [not_step_of_size hcall] at hstep
        cases hstep
      · obtain rfl : mid = next := Option.some.inj (hstep.symm.trans hnext)
        exact ih ⟨m', hrest⟩

theorem run_of_inBounds (h : m.Inv)
    (hmeets : machine.Meets (fun m call => call.inBounds m) m calls) :
    ∃ m', machine.run m calls = some m' := by
  induction calls generalizing m with
  | nil => exact ⟨m, rfl⟩
  | cons call calls ih =>
      obtain ⟨mid, p, hcall, hacts⟩ := call_acts h hmeets.1
      have hstep := step_eq_some_iff.mpr ⟨p, hcall⟩
      obtain ⟨m', hrest⟩ := ih hacts.inv (hmeets.2 mid hstep)
      exact ⟨m', machine.run_cons_iff.mpr ⟨mid, hstep, hrest⟩⟩

theorem isPartialMap_of_run (hrun : ∃ m, machine.run (.new kernel) calls = some m) :
    IsPartialMap kernel calls := by
  -- The next step of a run that goes on, and what it does.
  have hnext : ∀ before call after m, calls = before ++ call :: after →
      machine.run (.new kernel) before = some m →
      ∃ m' p, m.call call = .ok (m', p) ∧ Acts m m' call p := by
    rintro before call after m rfl hbefore
    obtain ⟨last, hrun⟩ := hrun
    obtain ⟨mid, hmid, hrest⟩ := machine.run_append_iff.mp hrun
    obtain rfl : m = mid := Option.some.inj (hbefore.symm.trans hmid)
    obtain ⟨m', hstep, -⟩ := machine.run_cons_iff.mp hrest
    obtain ⟨p, hcall, hacts⟩ := acts_of_step (inv_of_run hbefore) hstep
    exact ⟨m', p, hcall, hacts⟩
  refine ⟨hrun, ?_, ?_, ?_, ?_⟩
  · intro before fd after m heq hfd hbefore
    obtain ⟨m', p, hcall, hacts⟩ := hnext before _ after m heq hbefore
    obtain ⟨c, rfl, hc⟩ := hacts.creates fd rfl hfd
    refine ⟨m', c, hcall, fun between autoCreat rest later _ hdel hbetween => ?_⟩
    have hlater := contextOf_of_run hacts.inv hc hdel hbetween
    exact FdContextManager.getFdContext_some hfd fd.lt hlater autoCreat
  · intro before fd after m heq hbefore hnone
    by_cases hneg : fd.val = -1
    · rw [hneg, FdContextManager.getFdContext_neg_one]
    · have := fd.ge
      exact FdContextManager.getFdContext_none (by omega) fd.lt hnone
  · intro before fd after m heq hbefore
    obtain ⟨m', p, hcall, hacts⟩ := hnext before _ after m heq hbefore
    obtain ⟨made, hdel, hmade⟩ := bind_eq_ok.mp hcall
    cases hmade
    exact ⟨m', hdel, hacts.deletes fd rfl⟩
  · intro before call after m m' p heq hbefore hcall
    obtain ⟨made, q, hmade, hacts⟩ := hnext before call after m heq hbefore
    obtain ⟨rfl, rfl⟩ := Prod.mk.inj (Except.ok.inj (hcall.symm.trans hmade))
    exact hacts.frame

end

/-- The manager is a partial map as long as nothing deletes the descriptor that is its size. -/
theorem fdContexts_partial_map_iff (kernel : Kernel) (calls : List Call) :
    IsPartialMap kernel calls ↔
      machine.Meets (fun m call => call.inBounds m) (.new kernel) calls := by
  constructor
  · exact fun h => inBounds_of_run h.inBounds
  · intro hmeets
    exact isPartialMap_of_run (run_of_inBounds (FdContextManager.new_inv kernel) hmeets)

/-- A new manager has 64 places. -/
theorem delete_past_end :
    ¬ IsPartialMap ⟨fun _ => none, fun _ => false⟩
      [.delFdContext ⟨64, by decide, by decide⟩] := by
  rintro ⟨⟨m, hrun⟩, -, -, -, -⟩
  obtain ⟨p, hcall⟩ := step_eq_some_iff.mp (machine.run_single_iff.mp hrun)
  revert hcall
  exact nofun

end Qslary.Descriptors
