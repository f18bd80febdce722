import Qslary.Hook.Model

/-!
# What the user sees of `O_NONBLOCK`

The kernel has a managed socket non-blocking throughout, and `F_GETFL` answers from the
context.  The hooked `ioctl` hands the user's own argument on, so that a request for
blocking mode by `FIONBIO` reaches the kernel.

Each descriptor has status flags of its own here: two descriptors that `dup` has made of
one share them, and then a call on the one is a call on the other as well.
-/

namespace Qslary.Hook

open Qslary.Foundation
open Qslary.Descriptors (FdContext FdContextManager Fd)

inductive Call where
  | setfl (fd : Fd) (arg : Status)
  | getfl (fd : Fd)
  | fionbio (fd : Fd) (v : BitVec 32)
  deriving DecidableEq

def Call.fd : Call → Fd
  | .setfl fd _ => fd
  | .getfl fd => fd
  | .fionbio fd _ => fd

def Process.perform (rules : Rules) (p : Process) : Call → Process
  | .setfl fd arg => (p.setfl rules fd arg).1
  | .getfl _ => p
  | .fionbio fd v => (p.fionbio fd v).1

/-- What has been asked for on one descriptor: the mode, and the other flags. -/
structure Asked where
  nonblock : Bool
  flags : Status

def Asked.hear (rules : Rules) (fd : Fd) (asked : Asked) (call : Call) : Asked :=
  if call.fd = fd then
    match call with
    | .setfl _ arg =>
        { nonblock := arg.nonblock
          flags :=
            if rules.taken fd.val asked.flags.others arg.others then rules.change asked.flags arg
            else asked.flags }
    | .getfl _ => asked
    | .fionbio _ v => { asked with nonblock := v != 0 }
  else asked

theorem Asked.hear_ne {rules : Rules} {fd : Fd} {call : Call} (h : call.fd ≠ fd) (asked : Asked) :
    asked.hear rules fd call = asked := if_neg h

@[simp] theorem Asked.hear_setfl (rules : Rules) (fd : Fd) (asked : Asked) (arg : Status) :
    asked.hear rules fd (.setfl fd arg) =
      { nonblock := arg.nonblock
        flags :=
          if rules.taken fd.val asked.flags.others arg.others then rules.change asked.flags arg
          else asked.flags } := if_pos rfl

@[simp] theorem Asked.hear_getfl (rules : Rules) (fd other : Fd) (asked : Asked) :
    asked.hear rules fd (.getfl other) = asked := ite_self asked

@[simp] theorem Asked.hear_fionbio (rules : Rules) (fd : Fd) (asked : Asked) (v : BitVec 32) :
    asked.hear rules fd (.fionbio fd v) = { asked with nonblock := v != 0 } := if_pos rfl

/-- The kernel's flag is the one in the context, and the user is told what was asked for. -/
structure Kept (p : Process) (fd : Fd) (asked : Asked) : Prop where
  kernel : ∃ c ctx, p.context fd = some (c, ctx) ∧ ctx.sysNonblock = true ∧
    p.nonblock fd = ctx.sysNonblock
  nonblock : (p.getfl fd).nonblock = asked.nonblock
  others : (p.getfl fd).others = asked.flags.others

/-! ## The flags in a word -/

theorem nonblock_or (flags : Status) : (flags ||| O_NONBLOCK).nonblock = true := by
  unfold Status.nonblock O_NONBLOCK
  rw [bne_iff_ne]
  intro h
  have hbit := congrArg (fun x => BitVec.getLsbD x 11) h
  simp at hbit

theorem nonblock_others (flags : Status) : flags.others.nonblock = false := by
  unfold Status.nonblock Status.others
  rw [BitVec.and_assoc]
  simp

theorem others_or (flags : Status) : (flags ||| O_NONBLOCK).others = flags.others := by
  unfold Status.others
  ext i
  simp
  grind

theorem others_others (flags : Status) : flags.others.others = flags.others := by
  unfold Status.others
  rw [BitVec.and_assoc, BitVec.and_self]

/-- The mode asked for has no part in what becomes of the other flags. -/
theorem others_change (rules : Rules) (held asked : Status) :
    (rules.change held asked).others = rules.change held.others asked.others := by
  unfold Rules.change Status.others
  ext i
  simp
  grind

/-! ## A managed socket -/

/-- What every call keeps of the socket `fd` with the object `c`, whatever the kernel's flag. -/
structure Managed (p : Process) (fd : Fd) (c : Nat) (asked : Asked) : Prop where
  contextOf_iff : ∀ other : Fd, p.manager.contextOf other.val = some c ↔ other = fd
  object : ∃ ctx, p.manager.objects[c]? = some ctx ∧ ctx.isClosed = false ∧ ctx.isSocket = true ∧
    ctx.sysNonblock = true ∧ ctx.userNonblock = asked.nonblock
  isOpen : p.isOpen fd = true
  flags : (p.flags fd.val).others = asked.flags.others

section

variable (rules : Rules) {p : Process} {fd : Fd} {c : Nat} {asked : Asked}

theorem context_eq_some {other : Fd} {d : Nat} {ctx : FdContext} :
    p.context other = some (d, ctx) ↔
      p.manager.contextOf other.val = some d ∧ p.manager.objects[d]? = some ctx := by
  unfold Process.context
  cases p.manager.contextOf other.val with
  | none => simp
  | some e =>
      cases hobject : p.manager.objects[e]? with
      | none =>
          simp only [Option.bind_some, hobject, Option.map_none, reduceCtorEq, Option.some.injEq,
            false_iff, not_and]
          intro heq
          simp [← heq, hobject]
      | some found =>
          simp only [Option.bind_some, hobject, Option.map_some, Option.some.injEq, Prod.mk.injEq]
          constructor
          · rintro ⟨rfl, rfl⟩
            exact ⟨rfl, hobject⟩
          · rintro ⟨rfl, hctx⟩
            exact ⟨rfl, Option.some.inj (hobject.symm.trans hctx)⟩

theorem Managed.context (h : Managed p fd c asked) :
    ∃ ctx, p.context fd = some (c, ctx) ∧ ctx.isClosed = false ∧ ctx.isSocket = true ∧
      ctx.sysNonblock = true ∧ ctx.userNonblock = asked.nonblock := by
  obtain ⟨ctx, hobject, hctx⟩ := h.object
  exact ⟨ctx, context_eq_some.mpr ⟨(h.contextOf_iff fd).mpr rfl, hobject⟩, hctx⟩

theorem Managed.context_ne (h : Managed p fd c asked) {other : Fd} (hother : other ≠ fd) {d : Nat}
    {ctx : FdContext} (hcontext : p.context other = some (d, ctx)) : d ≠ c := by
  intro heq
  apply hother
  rw [← h.contextOf_iff, ← heq]
  exact (context_eq_some.mp hcontext).1

/-! ### What the parts of a call keep -/

theorem Managed.store_ne (h : Managed p fd c asked) {d : Nat} (hd : d ≠ c) (ctx : FdContext) :
    Managed (p.store d ctx) fd c asked := by
  refine ⟨h.contextOf_iff, ?_, h.isOpen, h.flags⟩
  obtain ⟨held, hobject, hheld⟩ := h.object
  refine ⟨held, ?_, hheld⟩
  show (p.manager.objects.set d ctx)[c]? = some held
  rw [List.getElem?_set_ne hd, hobject]

theorem Managed.store_self (h : Managed p fd c asked) {ctx : FdContext}
    (hcontext : p.context fd = some (c, ctx)) (v : Bool) :
    Managed (p.store c (ctx.setUserNonBlock v)) fd c { asked with nonblock := v } := by
  refine ⟨h.contextOf_iff, ?_, h.isOpen, h.flags⟩
  obtain ⟨held, hobject, hclosed, hsocket, hsys, -⟩ := h.object
  have hheld : held = ctx :=
    Option.some.inj (hobject.symm.trans (context_eq_some.mp hcontext).2)
  subst hheld
  refine ⟨held.setUserNonBlock v, ?_, hclosed, hsocket, hsys, rfl⟩
  show (p.manager.objects.set c _)[c]? = _
  rw [List.getElem?_set_self']
  simp [hobject]

theorem Managed.setNonblock (h : Managed p fd c asked) (other : Fd) (v : Bool) :
    Managed (p.setNonblock other v) fd c asked :=
  ⟨h.contextOf_iff, h.object, h.isOpen, h.flags⟩

theorem Managed.setfl_f_ne (h : Managed p fd c asked) {other : Fd} (hother : other ≠ fd)
    (arg : Status) : Managed (p.setfl_f rules other arg).1 fd c asked := by
  unfold Process.setfl_f
  split
  · refine ⟨h.contextOf_iff, h.object, h.isOpen, ?_⟩
    have hval : fd.val ≠ other.val := fun heq => hother (Descriptors.Fd.ext heq.symm)
    show (Function.update p.flags other.val _ fd.val).others = asked.flags.others
    rw [Function.update_of_ne hval, h.flags]
  · exact h

theorem Managed.fionbio_f (h : Managed p fd c asked) (other : Fd) (v : BitVec 32) :
    Managed (p.fionbio_f other v).1 fd c asked := by
  unfold Process.fionbio_f
  split
  · exact h.setNonblock other _
  · exact h

theorem nonblock_setNonblock (p : Process) (other : Fd) (v : Bool) (fd : Fd) :
    (p.setNonblock other v).nonblock fd = if other = fd then v else p.nonblock fd := by
  show Function.update p.manager.kernel.nonblock other.val v fd.val = _
  by_cases heq : other = fd
  · rw [if_pos heq, heq, Function.update_self]
  · have hval : fd.val ≠ other.val := fun hval => heq (Descriptors.Fd.ext hval.symm)
    rw [if_neg heq, Function.update_of_ne hval]
    rfl

theorem nonblock_setfl_f_ne {other : Fd} (hother : other ≠ fd) (arg : Status) :
    (p.setfl_f rules other arg).1.nonblock fd = p.nonblock fd := by
  unfold Process.setfl_f
  split
  · exact (nonblock_setNonblock p other _ fd).trans (if_neg hother)
  · rfl

theorem nonblock_fionbio_f_ne {other : Fd} (hother : other ≠ fd) (v : BitVec 32) :
    (p.fionbio_f other v).1.nonblock fd = p.nonblock fd := by
  unfold Process.fionbio_f
  split
  · exact (nonblock_setNonblock p other _ fd).trans (if_neg hother)
  · rfl

/-- What asks for `O_NONBLOCK` leaves it set, whether the request is taken or not. -/
theorem Managed.setfl_f_self (h : Managed p fd c asked) (arg : Status) :
    Managed (p.setfl_f rules fd (arg ||| O_NONBLOCK)).1 fd c
        { asked with
          flags :=
            if rules.taken fd.val asked.flags.others arg.others then rules.change asked.flags arg
            else asked.flags } ∧
      (p.nonblock fd = true → (p.setfl_f rules fd (arg ||| O_NONBLOCK)).1.nonblock fd = true) := by
  unfold Process.setfl_f
  rw [h.isOpen, h.flags, others_or, Bool.true_and]
  split
  · refine ⟨⟨h.contextOf_iff, h.object, h.isOpen, ?_⟩, fun _ => ?_⟩
    · show (Function.update p.flags fd.val _ fd.val).others = _
      rw [Function.update_self, others_change, others_change, others_or, h.flags]
    · show (p.setNonblock fd _).nonblock fd = true
      rw [nonblock_setNonblock, if_pos rfl, nonblock_or]
  · exact ⟨h, id⟩

/-! ### Whole calls -/

/-- A hooked `F_SETFL` may note the mode in the context, and then asks the kernel. -/
theorem setfl_cases (rules : Rules) (p : Process) (fd : Fd) (arg : Status) :
    (∃ asks, p.setfl rules fd arg = p.setfl_f rules fd asks) ∨
      ∃ d ctx noted asks, p.context fd = some (d, ctx) ∧
        p.setfl rules fd arg = (p.store d noted).setfl_f rules fd asks := by
  unfold Process.setfl
  cases p.context fd with
  | none => exact .inl ⟨arg, rfl⟩
  | some found =>
      obtain ⟨d, ctx⟩ := found
      dsimp only
      split
      · exact .inl ⟨arg, rfl⟩
      · exact .inr ⟨d, ctx, _, _, rfl, rfl⟩

theorem fionbio_cases (p : Process) (fd : Fd) (v : BitVec 32) :
    p.fionbio fd v = p.fionbio_f fd v ∨
      ∃ d ctx noted, p.context fd = some (d, ctx) ∧
        p.fionbio fd v = (p.store d noted).fionbio_f fd v := by
  unfold Process.fionbio
  cases p.context fd with
  | none => exact .inl rfl
  | some found =>
      obtain ⟨d, ctx⟩ := found
      dsimp only
      split
      · exact .inl rfl
      · exact .inr ⟨d, ctx, _, rfl, rfl⟩

/-- What a call does to the kernel's flag of the socket. -/
def Call.clears (call : Call) (fd : Fd) : Bool := call = .fionbio fd 0

theorem Managed.perform_ne (h : Managed p fd c asked) {call : Call} (hcall : call.fd ≠ fd) :
    Managed (p.perform rules call) fd c asked ∧
      (p.perform rules call).nonblock fd = p.nonblock fd := by
  cases call with
  | getfl other => exact ⟨h, rfl⟩
  | setfl other arg =>
      show Managed (p.setfl rules other arg).1 fd c asked ∧
        (p.setfl rules other arg).1.nonblock fd = p.nonblock fd
      obtain ⟨asks, heq⟩ | ⟨d, ctx, noted, asks, hcontext, heq⟩ := setfl_cases rules p other arg
      · rw [heq]
        exact ⟨h.setfl_f_ne rules hcall asks, nonblock_setfl_f_ne rules hcall asks⟩
      · rw [heq]
        have hstore := h.store_ne (h.context_ne hcall hcontext) noted
        exact ⟨hstore.setfl_f_ne rules hcall asks, nonblock_setfl_f_ne rules hcall asks⟩
  | fionbio other v =>
      show Managed (p.fionbio other v).1 fd c asked ∧
        (p.fionbio other v).1.nonblock fd = p.nonblock fd
      obtain heq | ⟨d, ctx, noted, hcontext, heq⟩ := fionbio_cases p other v
      · rw [heq]
        exact ⟨h.fionbio_f other v, nonblock_fionbio_f_ne hcall v⟩
      · rw [heq]
        have hstore := h.store_ne (h.context_ne hcall hcontext) noted
        exact ⟨hstore.fionbio_f other v, nonblock_fionbio_f_ne hcall v⟩

theorem Managed.perform_self (h : Managed p fd c asked) {call : Call} (hcall : call.fd = fd) :
    Managed (p.perform rules call) fd c (asked.hear rules fd call) ∧
      (p.nonblock fd = true → (p.perform rules call).nonblock fd = !call.clears fd) := by
  obtain ⟨ctx, hcontext, hclosed, hsocket, hsys, huser⟩ := h.context
  cases call with
  | getfl other =>
      rw [Asked.hear_getfl]
      exact ⟨h, id⟩
  | setfl other arg =>
      obtain rfl : other = fd := hcall
      have hstore := h.store_self hcontext arg.nonblock
      obtain ⟨hkept, hset⟩ := hstore.setfl_f_self rules arg
      have hperform : p.perform rules (.setfl other arg) =
          ((p.store c (ctx.setUserNonBlock arg.nonblock)).setfl_f rules other
            (arg ||| O_NONBLOCK)).1 := by
        unfold Process.perform Process.setfl
        simp [hcontext, hclosed, hsocket, FdContext.setUserNonBlock, hsys]
      rw [hperform, Asked.hear_setfl]
      exact ⟨hkept, hset⟩
  | fionbio other v =>
      obtain rfl : other = fd := hcall
      have hstore := h.store_self hcontext (v != 0)
      have hperform : p.perform rules (.fionbio other v) =
          ((p.store c (ctx.setUserNonBlock (v != 0))).fionbio_f other v).1 := by
        unfold Process.perform Process.fionbio
        simp [hcontext, hclosed, hsocket]
      rw [hperform, Asked.hear_fionbio]
      refine ⟨hstore.fionbio_f other v, fun _ => ?_⟩
      unfold Process.fionbio_f
      rw [hstore.isOpen, if_pos rfl, nonblock_setNonblock, if_pos rfl]
      simp only [Call.clears, Call.fionbio.injEq, true_and]
      rfl

theorem Managed.perform (h : Managed p fd c asked) (call : Call) :
    Managed (p.perform rules call) fd c (asked.hear rules fd call) ∧
      (p.nonblock fd = true → (p.perform rules call).nonblock fd = !call.clears fd) := by
  by_cases hcall : call.fd = fd
  · exact h.perform_self rules hcall
  · obtain ⟨hkept, hsame⟩ := h.perform_ne rules hcall
    rw [Asked.hear_ne hcall]
    refine ⟨hkept, fun hset => ?_⟩
    have hclears : call ≠ .fionbio fd 0 := fun heq => hcall (congrArg Call.fd heq)
    rw [hsame, hset, Call.clears, decide_eq_false hclears]
    rfl

theorem Managed.performs (h : Managed p fd c asked) (calls : List Call) :
    Managed (calls.foldl (·.perform rules) p) fd c (calls.foldl (·.hear rules fd) asked) := by
  induction calls generalizing p asked with
  | nil => exact h
  | cons call calls ih => exact ih (h.perform rules call).1

theorem Managed.nonblock_of_performs (h : Managed p fd c asked) (hset : p.nonblock fd = true)
    {calls : List Call} (hcalls : .fionbio fd 0 ∉ calls) :
    (calls.foldl (·.perform rules) p).nonblock fd = true := by
  induction calls generalizing p asked with
  | nil => exact hset
  | cons call calls ih =>
      rw [List.mem_cons, not_or] at hcalls
      obtain ⟨hkept, hafter⟩ := h.perform rules call
      apply ih hkept _ hcalls.2
      rw [hafter hset, Call.clears, decide_eq_false (Ne.symm hcalls.1)]
      rfl

/-! ## The illusion -/

theorem Managed.kept_iff (h : Managed p fd c asked) : Kept p fd asked ↔ p.nonblock fd = true := by
  obtain ⟨ctx, hcontext, hclosed, hsocket, hsys, huser⟩ := h.context
  constructor
  · intro hkept
    obtain ⟨d, found, -, hfound, hkernel⟩ := hkept.kernel
    rw [hkernel, hfound]
  · intro hset
    have hgetfl : p.getfl fd =
        if asked.nonblock then p.getfl_f fd ||| O_NONBLOCK else (p.getfl_f fd).others := by
      unfold Process.getfl
      simp only [hcontext, hclosed, hsocket, huser]
      rfl
    have hheld : (p.getfl_f fd).others = asked.flags.others := by
      unfold Process.getfl_f
      rw [if_pos h.isOpen, hset, if_pos rfl, others_or, others_others, h.flags]
    refine ⟨⟨c, ctx, hcontext, hsys, by rw [hset, hsys]⟩, ?_, ?_⟩
    · rw [hgetfl]
      cases asked.nonblock with
      | true => exact nonblock_or _
      | false => exact nonblock_others _
    · rw [hgetfl]
      cases asked.nonblock with
      | true => exact (others_or _).trans hheld
      | false => exact (others_others _).trans hheld

theorem kernel_of_create {m m' : FdContextManager} {fd : Int} (h : m.create fd = .ok (m', c)) :
    m'.kernel = (FdContext.new fd m.kernel).2 := by
  unfold FdContextManager.create at h
  generalize (if m.fds.length ≤ FdContextManager.sizeT fd then
    Block.resize m.fds (fd * 3 / 2).toNat none else m.fds) = fds at h
  split at h
  dsimp only at h
  split at h
  · cases h
    rename_i hnew _
    rw [hnew]
  · cases h

/-- A new context makes a socket non-blocking, and leaves the user in blocking mode. -/
theorem new_of_socket {kernel : Descriptors.Kernel} {fd : Int}
    (hsocket : kernel.fstat fd = some true) :
    (FdContext.new fd kernel).1.isClosed = false ∧ (FdContext.new fd kernel).1.isSocket = true ∧
      (FdContext.new fd kernel).1.sysNonblock = true ∧
      (FdContext.new fd kernel).1.userNonblock = false ∧
      (FdContext.new fd kernel).2.fstat = kernel.fstat ∧
      (FdContext.new fd kernel).2.nonblock fd = true := by
  simp only [FdContext.new, FdContext.init, hsocket, Option.getD_some, Bool.true_and,
    Bool.false_eq_true, if_false, true_and]
  split
  · exact ⟨rfl, by simp [Descriptors.Kernel.setNonblock]⟩
  · rename_i hset
    exact ⟨rfl, by simpa using hset⟩

theorem managed_of_getFdContext {m m' : FdContextManager} (hinv : m.Inv)
    (hsocket : m.kernel.fstat fd.val = some true) (habsent : m.contextOf fd.val = none)
    (hmade : m.getFdContext fd.val true = .ok (m', some c)) (flags : Int → Status) :
    Managed ⟨m', flags⟩ fd c ⟨false, flags fd.val⟩ ∧ m'.kernel.nonblock fd.val = true := by
  have hfd : 0 ≤ fd.val := by
    by_contra hneg
    have hminus : fd.val = -1 := by
      have := fd.ge
      omega
    rw [hminus, FdContextManager.getFdContext_neg_one] at hmade
    cases hmade
  obtain ⟨made, hcreate, hcreates⟩ := FdContextManager.create_eq hinv hfd fd.lt
  have heq : m.getFdContext fd.val true = .ok (made, some m.objects.length) := by
    rw [FdContextManager.getFdContext, if_neg (by omega), FdContextManager.lookup_eq hfd fd.lt,
      habsent]
    simp [hcreate, bind, Except.bind]
  rw [heq] at hmade
  cases hmade
  obtain ⟨hclosed, hsock, hsys, huser, hfstat, hset⟩ := new_of_socket hsocket
  have hkernel := kernel_of_create hcreate
  refine ⟨⟨fun other => ?_, ⟨_, ?_, hclosed, hsock, hsys, huser⟩, ?_, rfl⟩, ?_⟩
  · show m'.contextOf other.val = _ ↔ _
    rw [hcreates.contextOf_eq]
    split
    · rename_i hval
      exact ⟨fun _ => Descriptors.Fd.ext hval, fun _ => rfl⟩
    · rename_i hval
      constructor
      · intro hother
        exact absurd (hinv.lt_of_contextOf hother) (Nat.lt_irrefl _)
      · intro hother
        exact absurd (congrArg Fd.val hother) hval
  · show m'.objects[m.objects.length]? = _
    rw [hcreates.objects_eq, List.getElem?_concat_length]
  · show (m'.kernel.fstat fd.val).isSome = true
    rw [hkernel, hfstat, hsocket]
    rfl
  · rw [hkernel, hset]

end

/--
A socket gets its context in a process in which other contexts may have been made before.
The calls on it, with calls on other descriptors between them, keep the illusion as long as
none of them is an `ioctl` that asks for blocking mode.
-/
theorem blocking_illusion_iff (rules : Rules) {kernel : Descriptors.Kernel}
    {before : List Descriptors.Call} {m m' : FdContextManager} {fd : Fd} {c : Nat}
    (hrun : Descriptors.machine.run (.new kernel) before = some m)
    (hsocket : m.kernel.fstat fd.val = some true) (habsent : m.contextOf fd.val = none)
    (hmade : m.getFdContext fd.val true = .ok (m', some c)) (flags : Int → Status)
    (calls : List Call) :
    (∀ first later, calls = first ++ later →
      Kept (first.foldl (·.perform rules) ⟨m', flags⟩) fd
        (first.foldl (·.hear rules fd) ⟨false, flags fd.val⟩)) ↔
      .fionbio fd 0 ∉ calls := by
  obtain ⟨hmanaged, hset⟩ :=
    managed_of_getFdContext (Descriptors.inv_of_run hrun) hsocket habsent hmade flags
  constructor
  · intro hkept hmem
    obtain ⟨first, later, heq⟩ := List.append_of_mem hmem
    have hbefore := hmanaged.performs rules first
    have hsplit : calls = (first ++ [.fionbio fd 0]) ++ later := by simp [heq]
    have hfirst := hkept first (.fionbio fd 0 :: later) heq
    have hcleared := hkept (first ++ [.fionbio fd 0]) later hsplit
    rw [List.foldl_append, List.foldl_append] at hcleared
    obtain ⟨hafter, hclears⟩ := hbefore.perform rules (.fionbio fd 0)
    have hstill := hafter.kept_iff.mp hcleared
    rw [hclears (hbefore.kept_iff.mp hfirst), Call.clears, decide_eq_true rfl] at hstill
    cases hstill
  · intro hnot first later heq
    have hfirst : .fionbio fd 0 ∉ first := fun hmem =>
      hnot (heq ▸ List.mem_append_left later hmem)
    exact (hmanaged.performs rules first).kept_iff.mpr
      (hmanaged.nonblock_of_performs rules hset hfirst)

/-- A process in which every descriptor is a blocking socket. -/
def sockets : Descriptors.Kernel := ⟨fun _ => some true, fun _ => false⟩

/-- `O_APPEND`, `O_ASYNC`, `O_DIRECT` and `O_NOATIME` -/
def linux : Rules := ⟨0x46400, fun _ _ _ => true⟩

def listener : Fd := ⟨5, by decide, by decide⟩

theorem blocking_illusion_append :
    ∃ m' c, (FdContextManager.new sockets).getFdContext listener.val true = .ok (m', some c) ∧
      ((∀ first later, [Call.setfl listener 0x400] = first ++ later →
        Kept (first.foldl (·.perform linux) ⟨m', fun _ => 2⟩) listener
          (first.foldl (·.hear linux listener) ⟨false, 2⟩)) ↔
        Call.fionbio listener 0 ∉ [Call.setfl listener 0x400]) := by
  have hrun : Descriptors.machine.run (.new sockets) [] = some (.new sockets) := rfl
  exact ⟨_, _, rfl, blocking_illusion_iff linux hrun rfl rfl rfl (fun _ => 2) _⟩

/-- `FIONBIO` with 0 leaves the kernel in blocking mode under a context that says otherwise. -/
theorem fionbio_blocks :
    ∃ m' c, (FdContextManager.new sockets).getFdContext listener.val true = .ok (m', some c) ∧
      ¬ Kept (Process.perform linux ⟨m', fun _ => 2⟩ (.fionbio listener 0)) listener
        (Asked.hear linux listener ⟨false, 2⟩ (.fionbio listener 0)) := by
  refine ⟨_, _, rfl, fun hkept => ?_⟩
  obtain ⟨c, ctx, -, hsys, hkernel⟩ := hkept.kernel
  rw [hsys] at hkernel
  exact absurd hkernel (by decide)

end Qslary.Hook
