import Qslary.Http.Servlet

/-!
# Choosing a servlet

The tables of a `ServletDispatch` as its calls change them, and what is to be found in
them for a url.  The loop over the patterns reads the iterator into the exact table, which
is at its end by then, so that where there are patterns only a registered url finds anything.
-/

namespace Qslary.Http

open Qslary.Foundation

namespace ServletDispatch

variable {S : Type}

/-- `unordered_map::insert`, which leaves an entry that is there. -/
def addServlet (d : ServletDispatch S) (url : Bytes) (slt : S) : ServletDispatch S :=
  match d.mpData url with
  | some _ => d
  | none => { d with mpData := Function.update d.mpData url (some slt) }

def addGlobalServlet (d : ServletDispatch S) (url : Bytes) (slt : S) : ServletDispatch S :=
  { d with vData := d.vData ++ [(url, slt)] }

def delServlet (d : ServletDispatch S) (url : Bytes) : ServletDispatch S :=
  { d with mpData := Function.update d.mpData url none }

/-- The loop of `delGlobalServlet`. -/
def eraseFirst (url : Bytes) : List (Bytes × S) → List (Bytes × S)
  | [] => []
  | entry :: rest => if entry.1 = url then rest else entry :: eraseFirst url rest

def delGlobalServlet (d : ServletDispatch S) (url : Bytes) : ServletDispatch S :=
  { d with vData := eraseFirst url d.vData }

def setDefaultServlet (d : ServletDispatch S) (slt : S) : ServletDispatch S :=
  { d with defaultServlet := slt }

inductive Call (S : Type) where
  | addServlet (url : Bytes) (slt : S)
  | addGlobalServlet (url : Bytes) (slt : S)
  | delServlet (url : Bytes)
  | delGlobalServlet (url : Bytes)
  | setDefaultServlet (slt : S)

def apply (d : ServletDispatch S) : Call S → ServletDispatch S
  | .addServlet url slt => d.addServlet url slt
  | .addGlobalServlet url slt => d.addGlobalServlet url slt
  | .delServlet url => d.delServlet url
  | .delGlobalServlet url => d.delGlobalServlet url
  | .setDefaultServlet slt => d.setDefaultServlet slt

def after (d : ServletDispatch S) (calls : List (Call S)) : ServletDispatch S :=
  calls.foldl apply d

/-! ## What the calls ask for, the last one first -/

/-- The first servlet that was added for the url since it was last deleted. -/
def registered (url : Bytes) : List (Call S) → Option S
  | [] => none
  | .addServlet added slt :: earlier =>
      if added = url then (registered url earlier).or (some slt) else registered url earlier
  | .delServlet deleted :: earlier => if deleted = url then none else registered url earlier
  | _ :: earlier => registered url earlier

/-- The entries that no deletion has taken, in the order they were added in. -/
def remaining : List (Call S) → List (Bytes × S)
  | [] => []
  | .addGlobalServlet url slt :: earlier => remaining earlier ++ [(url, slt)]
  | .delGlobalServlet url :: earlier => (remaining earlier).eraseP fun entry => entry.1 = url
  | _ :: earlier => remaining earlier

def lastDefault (slt : S) : List (Call S) → S
  | [] => slt
  | .setDefaultServlet set :: _ => set
  | _ :: earlier => lastDefault slt earlier

/-- The servlet of the url, or of the first pattern for it, or the default. -/
def chosen (fnmatch : Bytes → Bytes → Bool) (slt : S) (history : List (Call S)) (url : Bytes) : S :=
  match registered url history with
  | some slt => slt
  | none =>
      match (remaining history).find? fun entry => fnmatch entry.1 url with
      | some entry => entry.2
      | none => lastDefault slt history

/-! ## The tables after the calls -/

theorem eraseFirst_eq (url : Bytes) (entries : List (Bytes × S)) :
    eraseFirst url entries = entries.eraseP fun entry => entry.1 = url := by
  induction entries with
  | nil => rfl
  | cons entry entries ih =>
      by_cases hurl : entry.1 = url <;> simp [eraseFirst, hurl, ih]

theorem addServlet_vData (d : ServletDispatch S) (url : Bytes) (slt : S) :
    (d.addServlet url slt).vData = d.vData := by
  cases hdata : d.mpData url <;> simp [addServlet, hdata]

theorem addServlet_defaultServlet (d : ServletDispatch S) (url : Bytes) (slt : S) :
    (d.addServlet url slt).defaultServlet = d.defaultServlet := by
  cases hdata : d.mpData url <;> simp [addServlet, hdata]

/-- What the tables are to hold after some calls, the last one first. -/
structure Holds (slt : S) (history : List (Call S)) (d : ServletDispatch S) : Prop where
  mpData_eq : ∀ url, d.mpData url = registered url history
  vData_eq : d.vData = remaining history
  defaultServlet_eq : d.defaultServlet = lastDefault slt history

theorem holds_apply {slt : S} {history : List (Call S)} {d : ServletDispatch S}
    (h : d.Holds slt history) (call : Call S) : (d.apply call).Holds slt (call :: history) := by
  cases call with
  | addServlet added slt' =>
      refine ⟨fun url => ?_, ?_, ?_⟩
      · by_cases hurl : added = url
        · subst hurl
          cases hdata : d.mpData added <;>
            simp [apply, addServlet, registered, ← h.mpData_eq added, hdata]
        · cases hdata : d.mpData added <;>
            simp [apply, addServlet, registered, hdata, hurl, Ne.symm hurl, h.mpData_eq url]
      · exact (addServlet_vData d added slt').trans h.vData_eq
      · exact (addServlet_defaultServlet d added slt').trans h.defaultServlet_eq
  | addGlobalServlet url slt' =>
      exact ⟨h.mpData_eq, congrArg (· ++ [(url, slt')]) h.vData_eq, h.defaultServlet_eq⟩
  | delServlet deleted =>
      refine ⟨fun url => ?_, h.vData_eq, h.defaultServlet_eq⟩
      by_cases hurl : deleted = url
      · subst hurl
        simp [apply, delServlet, registered]
      · simp [apply, delServlet, registered, hurl, Ne.symm hurl, h.mpData_eq url]
  | delGlobalServlet url =>
      refine ⟨h.mpData_eq, ?_, h.defaultServlet_eq⟩
      rw [remaining, ← h.vData_eq]
      exact eraseFirst_eq url d.vData
  | setDefaultServlet slt' => exact ⟨h.mpData_eq, h.vData_eq, rfl⟩

theorem holds_after {slt : S} {history : List (Call S)} {d : ServletDispatch S}
    (h : d.Holds slt history) (calls : List (Call S)) :
    (d.after calls).Holds slt (calls.reverse ++ history) := by
  induction calls generalizing d history with
  | nil => exact h
  | cons call calls ih =>
      have hrest := ih (holds_apply h call)
      rwa [List.reverse_cons, List.append_assoc, List.singleton_append]

/-! ## What is found -/

theorem getMatchServlet_of_finds (fnmatch : Bytes → Bytes → Bool) {slt : S}
    {history : List (Call S)} {d : ServletDispatch S} (h : d.Holds slt history) {url : Bytes}
    (hfinds : d.Finds url) :
    d.getMatchServlet url = some (chosen fnmatch slt history url) := by
  rw [getMatchServlet, chosen, ← h.mpData_eq url, ← h.vData_eq, ← h.defaultServlet_eq]
  cases hdata : d.mpData url with
  | some slt' => rfl
  | none =>
      have hnone : d.vData = [] := by
        rcases hfinds with hsome | hnone
        · rw [hdata] at hsome
          cases hsome
        · exact hnone
      rw [hnone]
      rfl

/-- The choice is made exactly when there is no pattern to go through. -/
theorem getMatchServlet_chosen_iff (fnmatch : Bytes → Bytes → Bool)
    (calls : List (Call (Option Servlet))) (url : Bytes) :
    (new.after calls).getMatchServlet url =
        some (chosen fnmatch new.defaultServlet calls.reverse url) ↔
      (registered url calls.reverse).isSome ∨ remaining calls.reverse = [] := by
  have hnew : new.Holds new.defaultServlet [] := ⟨fun _ => rfl, rfl, rfl⟩
  have hafter := holds_after hnew calls
  rw [List.append_nil] at hafter
  have hfinds : (new.after calls).Finds url ↔
      (registered url calls.reverse).isSome ∨ remaining calls.reverse = [] := by
    rw [Finds, hafter.mpData_eq url, hafter.vData_eq]
  rw [← hfinds]
  constructor
  · intro h
    rw [← getMatchServlet_isSome_iff, h]
    rfl
  · exact getMatchServlet_of_finds fnmatch hafter

/-- With one pattern, whether it matches or not, the iterator at its end is read. -/
theorem getMatchServlet_astray :
    (new.after [.addGlobalServlet (ascii "/a*") none]).getMatchServlet (ascii "/ab") ≠
      some (chosen (fun _ _ => true) new.defaultServlet
        [.addGlobalServlet (ascii "/a*") none] (ascii "/ab")) :=
  nofun

end ServletDispatch

end Qslary.Http
