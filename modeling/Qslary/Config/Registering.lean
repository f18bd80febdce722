import Qslary.Config.Model
import Qslary.Foundation.Interning

/-!
# One name, one variable

`lookup` is a template over the type of the variable, and all its instances share one
table.  Whatever instances are called in whatever order, the first to create a variable
under a name decides its type and its object.
-/

namespace Qslary.Config

open Qslary.Foundation

/-- `ConfigVar<T>` for one of the types `ι`, whose values `Val` gives. -/
structure Variable {ι : Type} (Val : ι → Type) where
  T : ι
  var : ConfigVar (Val T)
  mDescription : Bytes

/-- `ConfigVarMap`, with the objects its pointers lead to. -/
abbrev Registry {ι : Type} (Val : ι → Type) := Interned Bytes (Variable Val)

inductive Answer where
  | returned (ptr : Option Nat)
  | thrown (what : Bytes)
  deriving DecidableEq

/-- A call of one of the three lookups. -/
inductive Lookup {ι : Type} (Val : ι → Type) where
  | create (T : ι) (name : Bytes) (default : Val T) (description : Bytes)
  | typed (T : ι) (name : Bytes)
  | base (name : Bytes)

namespace Registry

variable {ι : Type} [DecidableEq ι] {Val : ι → Type}

/-- `std::dynamic_pointer_cast<ConfigVar<T>>` -/
def dynamicPointerCast (datas : Registry Val) (T : ι) (ptr : Nat) : Option Nat :=
  match datas.cells[ptr]? with
  | some base => if base.T = T then some ptr else none
  | none => none

/-- `lookup<T>(name, default_value, description)` -/
def lookup (datas : Registry Val) (T : ι) (name : Bytes) (default : Val T)
    (description : Bytes) : Registry Val × Answer :=
  match datas.index name with
  | some it => (datas, .returned (dynamicPointerCast datas T it))
  | none =>
      if name.all isNameByte then
        let v : Variable Val := ⟨T, ConfigVar.new name default, description⟩
        (datas.add name v, .returned (some datas.cells.length))
      else (datas, .thrown name)

/-- `lookup<T>(name)` -/
def lookupTyped (datas : Registry Val) (T : ι) (name : Bytes) : Answer :=
  match datas.index name with
  | some it => .returned (dynamicPointerCast datas T it)
  | none => .returned none

def LookUpBase (datas : Registry Val) (name : Bytes) : Answer :=
  .returned (datas.index name)

def call (datas : Registry Val) : Lookup Val → Registry Val × Answer
  | .create T name default description => lookup datas T name default description
  | .typed T name => (datas, lookupTyped datas T name)
  | .base name => (datas, LookUpBase datas name)

/-- The registry after the calls, whatever they answered. -/
def run (datas : Registry Val) (calls : List (Lookup Val)) : Registry Val :=
  calls.foldl (fun datas c => (call datas c).1) datas

end Registry

/-- The call is one of the typed lookups of the name, of either overload. -/
def Lookup.Asks {ι : Type} {Val : ι → Type} (T : ι) (name : Bytes) : Lookup Val → Prop
  | .create T' name' _ _ => T' = T ∧ name' = name
  | .typed T' name' => T' = T ∧ name' = name
  | .base _ => False

namespace Registry

variable {ι : Type} [DecidableEq ι] {Val : ι → Type}

theorem dynamicPointerCast_eq {datas : Registry Val} {ptr : Nat} {base : Variable Val}
    (hcell : datas.cells[ptr]? = some base) (T : ι) :
    dynamicPointerCast datas T ptr = if base.T = T then some ptr else none := by
  simp [dynamicPointerCast, hcell]

theorem lookup_of_index {datas : Registry Val} {name : Bytes} {ptr : Nat}
    (h : datas.index name = some ptr) (T : ι) (default : Val T) (description : Bytes) :
    lookup datas T name default description =
      (datas, .returned (dynamicPointerCast datas T ptr)) := by
  simp [lookup, h]

theorem lookup_of_invalid {datas : Registry Val} {name : Bytes} (hfree : datas.index name = none)
    (hname : name.all isNameByte = false) (T : ι) (default : Val T) (description : Bytes) :
    lookup datas T name default description = (datas, .thrown name) := by
  simp [lookup, hfree, hname]

theorem lookup_of_free {datas : Registry Val} {name : Bytes} (hfree : datas.index name = none)
    (hname : name.all isNameByte = true) (T : ι) (default : Val T) (description : Bytes) :
    lookup datas T name default description =
      (datas.add name ⟨T, ConfigVar.new name default, description⟩,
        .returned (some datas.cells.length)) := by
  simp [lookup, hfree, hname]

/-- What one call does to the registry: nothing, or it registers a free name it takes. -/
theorem call_cases (datas : Registry Val) (c : Lookup Val) :
    (call datas c).1 = datas ∨
      ∃ T name default description, c = .create T name default description ∧
        datas.index name = none ∧ name.all isNameByte = true ∧
        call datas c =
          (datas.add name ⟨T, ConfigVar.new name default, description⟩,
            .returned (some datas.cells.length)) := by
  cases c with
  | create T name default description =>
      cases hindex : datas.index name with
      | some ptr => exact Or.inl (by simp [call, lookup_of_index hindex])
      | none =>
          cases hname : name.all isNameByte with
          | false => exact Or.inl (by simp [call, lookup_of_invalid hindex hname])
          | true =>
              exact Or.inr ⟨T, name, default, description, rfl, hindex, hname,
                lookup_of_free hindex hname T default description⟩
  | typed T name => exact Or.inl rfl
  | base name => exact Or.inl rfl

/-! ## Registered names -/

theorem call_extends (datas : Registry Val) (c : Lookup Val) :
    datas.Extends (call datas c).1 := by
  rcases call_cases datas c with hsame | ⟨T, name, default, description, -, hfree, -, hcall⟩
  · rw [hsame]
    exact .refl datas
  · rw [hcall]
    exact .add hfree _

theorem run_extends (datas : Registry Val) (calls : List (Lookup Val)) :
    datas.Extends (run datas calls) :=
  Interned.Extends.foldl call_extends datas calls

/-- What the variable under a name has of it. -/
def Named (name : Bytes) (base : Variable Val) : Prop :=
  base.var.mName = name ∧ name.all isNameByte = true

theorem call_named {datas : Registry Val} (h : datas.Holds Named) (c : Lookup Val) :
    (call datas c).1.Holds Named := by
  rcases call_cases datas c with hsame | ⟨T, name, default, description, -, -, hname, hcall⟩
  · rw [hsame]
    exact h
  · rw [hcall]
    exact h.add ⟨rfl, hname⟩

theorem run_named {datas : Registry Val} (h : datas.Holds Named) (calls : List (Lookup Val)) :
    (run datas calls).Holds Named := by
  induction calls generalizing datas with
  | nil => exact h
  | cons c calls ih => exact ih (call_named h c)

omit [DecidableEq ι] in
theorem index_of_invalid {datas : Registry Val} (h : datas.Holds Named) {name : Bytes}
    (hname : name.all isNameByte = false) : datas.index name = none := by
  cases hindex : datas.index name with
  | none => rfl
  | some ptr =>
      obtain ⟨base, hcell⟩ := Interned.cell_of_index hindex
      have hvalid := (h name ptr base hindex hcell).2
      simp [hname] at hvalid

/-! ## Answers -/

/-- A typed lookup of a registered name answers by the type of its variable alone. -/
theorem call_of_asks {datas : Registry Val} {name : Bytes} {ptr : Nat} {base : Variable Val}
    (hindex : datas.index name = some ptr) (hcell : datas.cells[ptr]? = some base)
    {T : ι} {c : Lookup Val} (hasks : c.Asks T name) :
    call datas c = (datas, .returned (if base.T = T then some ptr else none)) := by
  cases c with
  | create T' name' default description =>
      obtain ⟨rfl, rfl⟩ := hasks
      rw [call, lookup_of_index hindex, dynamicPointerCast_eq hcell]
  | typed T' name' =>
      obtain ⟨rfl, rfl⟩ := hasks
      simp [call, lookupTyped, hindex, dynamicPointerCast_eq hcell]
  | base name' => exact hasks.elim

/-- A typed lookup that found or made an object leaves it registered, with its type. -/
theorem registered_of_asks {datas : Registry Val} {T : ι} {name : Bytes} {c : Lookup Val}
    (hasks : c.Asks T name) {ptr : Nat} (hanswer : (call datas c).2 = .returned (some ptr)) :
    (call datas c).1.index name = some ptr ∧
      ∃ base, (call datas c).1.cells[ptr]? = some base ∧ base.T = T := by
  cases hindex : datas.index name with
  | some it =>
      obtain ⟨base, hcell⟩ := Interned.cell_of_index hindex
      rw [call_of_asks hindex hcell hasks] at hanswer ⊢
      simp only [Answer.returned.injEq, Option.ite_none_right_eq_some, Option.some.injEq]
        at hanswer
      obtain ⟨hT, rfl⟩ := hanswer
      exact ⟨hindex, base, hcell, hT⟩
  | none =>
      cases c with
      | create T' name' default description =>
          obtain ⟨rfl, rfl⟩ := hasks
          cases hname : name'.all isNameByte with
          | false => simp [call, lookup_of_invalid hindex hname] at hanswer
          | true =>
              rw [call, lookup_of_free hindex hname] at hanswer ⊢
              simp only [Answer.returned.injEq, Option.some.injEq] at hanswer
              simp [← hanswer]
      | typed T' name' =>
          obtain ⟨rfl, rfl⟩ := hasks
          simp [call, lookupTyped, hindex] at hanswer
      | base name' => exact hasks.elim

theorem call_unchanged {datas : Registry Val} {c : Lookup Val}
    (h : ∀ ptr, (call datas c).2 ≠ .returned (some ptr)) : (call datas c).1 = datas := by
  rcases call_cases datas c with hsame | ⟨T, name, default, description, -, -, -, hcall⟩
  · exact hsame
  · exact absurd (by rw [hcall]) (h datas.cells.length)

/-- A creating lookup of a free name it takes makes the object that is registered from then on. -/
theorem create_of_free {datas : Registry Val} {name : Bytes} (hfree : datas.index name = none)
    (hname : name.all isNameByte = true) (T : ι) (default : Val T) (description : Bytes) :
    let made := call datas (.create T name default description)
    made.2 = .returned (some datas.cells.length) ∧
      made.1.index name = some datas.cells.length ∧
      made.1.cells = datas.cells ++ [⟨T, ConfigVar.new name default, description⟩] := by
  simp [call, lookup_of_free hfree hname]

/--
From any point of any sequence of calls on: a creating lookup of a free name makes an object
with the default and registers it, and the other lookups find nothing under it; a registered
name keeps its pointer and its variable, and a typed lookup of it finds that if the type is
the same and nothing if not, so that what a typed lookup has found is what every later one of
the same name and type finds, and the base lookup with them, and one of another type finds
nothing; a name outside the alphabet makes a creating lookup throw; and a call that returns
null or throws leaves the registry as it is.
-/
theorem one_variable_one_type (before after : List (Lookup Val)) :
    let datas := run .empty before
    (∀ T name default description, datas.index name = none → name.all isNameByte = true →
      let made := call datas (.create T name default description)
      made.2 = .returned (some datas.cells.length) ∧
        made.1.index name = some datas.cells.length ∧
        made.1.cells = datas.cells ++ [⟨T, ConfigVar.new name default, description⟩]) ∧
      (∀ T name, datas.index name = none →
        call datas (.typed T name) = (datas, .returned none) ∧
          call datas (.base name) = (datas, .returned none)) ∧
      (∀ name ptr, datas.index name = some ptr →
        (run datas after).index name = some ptr ∧
          ∃ base, datas.cells[ptr]? = some base ∧ (run datas after).cells[ptr]? = some base ∧
            base.var.mName = name ∧ ∀ T c, c.Asks T name →
              call datas c = (datas, .returned (if base.T = T then some ptr else none))) ∧
      (∀ T name ptr first second, first.Asks T name → second.Asks T name →
        (call datas first).2 = .returned (some ptr) →
        let later := run (call datas first).1 after
        call later second = (later, .returned (some ptr)) ∧
          call later (.base name) = (later, .returned (some ptr))) ∧
      (∀ T T' name ptr first second, first.Asks T name → second.Asks T' name → T ≠ T' →
        (call datas first).2 = .returned (some ptr) →
        let later := run (call datas first).1 after
        call later second = (later, .returned none)) ∧
      (∀ T name default description, name.all isNameByte = false →
        (call datas (.create T name default description)).2 = .thrown name) ∧
      ∀ c, (call datas c).2 = .returned none ∨ (∃ what, (call datas c).2 = .thrown what) →
        (call datas c).1 = datas := by
  intro datas
  have hnamed : datas.Holds Named := run_named (Interned.holds_empty _) before
  refine ⟨?_, ?_, ?_, ?_, ?_, ?_, ?_⟩
  · intro T name default description hfree hname
    exact create_of_free hfree hname T default description
  · intro T name hfree
    simp [call, lookupTyped, LookUpBase, hfree]
  · intro name ptr hindex
    have hextends := run_extends datas after
    obtain ⟨base, hcell⟩ := Interned.cell_of_index hindex
    exact ⟨hextends.index hindex, base, hcell, hextends.cell hcell,
      (hnamed name ptr base hindex hcell).1, fun T c hasks => call_of_asks hindex hcell hasks⟩
  · intro T name ptr first second hfirst hsecond hanswer later
    have hextends : (call datas first).1.Extends later := run_extends _ after
    obtain ⟨hindex, base, hcell, hT⟩ := registered_of_asks hfirst hanswer
    have hlater := hextends.index hindex
    constructor
    · rw [call_of_asks hlater (hextends.cell hcell) hsecond, if_pos hT]
    · rw [call, LookUpBase, hlater]
  · intro T T' name ptr first second hfirst hsecond hne hanswer later
    have hextends : (call datas first).1.Extends later := run_extends _ after
    obtain ⟨hindex, base, hcell, hT⟩ := registered_of_asks hfirst hanswer
    have hother : base.T ≠ T' := by
      rw [hT]
      exact hne
    rw [call_of_asks (hextends.index hindex) (hextends.cell hcell) hsecond, if_neg hother]
  · intro T name default description hname
    have hfree := index_of_invalid hnamed hname
    rw [call, lookup_of_invalid hfree hname]
  · intro c hanswer
    apply call_unchanged
    intro ptr hptr
    rcases hanswer with hnull | ⟨what, hthrown⟩
    · simp [hnull] at hptr
    · simp [hthrown] at hptr

/-- `port` is created, looked up with another default and with another type. -/
theorem one_variable_one_type_port :
    let port : Lookup (fun _ : Bool => Nat) := .create true (ascii "port") 80 []
    let later := run (call .empty port).1 [.create true (ascii "port") 8080 []]
    (call .empty port).2 = .returned (some 0) ∧
      (call .empty port).1.cells = [⟨true, ConfigVar.new (ascii "port") 80, []⟩] ∧
      call later (.typed true (ascii "port")) = (later, .returned (some 0)) ∧
      call later (.typed false (ascii "port")) = (later, .returned none) := by
  intro port later
  let again : List (Lookup fun _ : Bool => Nat) := [.create true (ascii "port") 8080 []]
  obtain ⟨hcreates, -, -, hsame, hother, -, -⟩ := one_variable_one_type [] again
  obtain ⟨hanswer, -, hcells⟩ := hcreates true (ascii "port") 80 [] rfl (by decide)
  refine ⟨hanswer, hcells, ?_, ?_⟩
  · exact (hsame true _ 0 port (.typed true _) ⟨rfl, rfl⟩ ⟨rfl, rfl⟩ hanswer).1
  · exact hother true false _ 0 port (.typed false _) ⟨rfl, rfl⟩ ⟨rfl, rfl⟩ (by decide) hanswer

/-! ## The untyped registry -/

section Untyped

variable (decEq : ∀ T, DecidableEq (Val T)) (fromStr : ∀ T, Bytes → Option (Val T))

def toBase (v : Variable Val) : ConfigBase := ⟨Val v.T, decEq v.T, fromStr v.T, v.var⟩

def toMap (datas : Registry Val) : ConfigVarMap := fun name =>
  (datas.index name).bind fun ptr => datas.cells[ptr]?.map (toBase decEq fromStr)

omit [DecidableEq ι] in
theorem toMap_isSome (datas : Registry Val) (name : Bytes) :
    (toMap decEq fromStr datas name).isSome = (datas.index name).isSome := by
  cases hindex : datas.index name with
  | none => simp [toMap, hindex]
  | some ptr =>
      obtain ⟨base, hcell⟩ := Interned.cell_of_index hindex
      simp [toMap, hindex, hcell]

omit [DecidableEq ι] in
theorem toMap_add (datas : Registry Val) (name : Bytes) (v : Variable Val) :
    toMap decEq fromStr (datas.add name v) =
      Function.update (toMap decEq fromStr datas) name (some (toBase decEq fromStr v)) := by
  funext other
  by_cases heq : other = name
  · subst heq
    simp [toMap]
  · rw [Function.update_of_ne heq]
    cases hindex : datas.index other with
    | none => simp [toMap, Interned.index_add_of_ne datas name v heq, hindex]
    | some ptr =>
        simp [toMap, Interned.index_add_of_ne datas name v heq, hindex,
          List.getElem?_append_left (datas.valid hindex)]

/-- The typed lookup does to the table what the lookup that loading relies on does. -/
theorem lookup_refines (datas : Registry Val) (T : ι) (name : Bytes) (default : Val T)
    (description : Bytes) :
    Config.lookup (toMap decEq fromStr datas) name
        (toBase decEq fromStr ⟨T, ConfigVar.new name default, description⟩) =
      match lookup datas T name default description with
      | (later, .returned _) => some (toMap decEq fromStr later)
      | (_, .thrown _) => none := by
  unfold Config.lookup
  rw [toMap_isSome]
  cases hindex : datas.index name with
  | some ptr => simp [lookup_of_index hindex]
  | none =>
      cases hname : name.all isNameByte with
      | false => simp [lookup_of_invalid hindex hname]
      | true => simp [lookup_of_free hindex hname, toMap_add]

end Untyped

end Registry

end Qslary.Config
