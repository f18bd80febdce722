import Qslary.Uri.Grammar

/-!
# What the automaton does with the parts of a URI

As long as it is not known whether a text is user information or a host, the states are
those of a host, and the actions of both have run.
-/

namespace Qslary.Uri

open Qslary.Foundation

/-! ## Rows -/

/-- A text over a set, percent-encoded bytes included, can begin here. -/
def enters (q : Nat) (bytes : List (Nat × Nat)) (actions : List Action) (states : List Nat)
    (first second : Nat) : Bool :=
  leads next q bytes actions states && goes next q 37 actions first &&
    leads next first hexDigit [] [second] && leads next second hexDigit [] states

/-- It goes on in the same states, without an action. -/
def loops (states : List Nat) (bytes : List (Nat × Nat)) (first second : Nat) : Bool :=
  states.all fun q => enters q bytes [] states first second

/-- What may be a host or user information, before a colon. -/
def userHosts : List Nat :=
  [520, 543, 544, 545, 546, 547, 548, 549, 550, 551, 552, 553, 554, 555, 556, 557, 558, 559, 560]

def hosts : List Nat :=
  [523, 524, 525, 526, 527, 528, 529, 530, 531, 532, 533, 534, 535, 536, 537, 538, 539, 540, 541]

/-- The rows in which the texts of a URI begin and go on. -/
structure TextRows : Prop where
  loops_userHosts : loops userHosts regNameByte 253 254 = true
  loops_hosts : loops hosts regNameByte 258 259 = true
  loops_userinfo : loops [255, 542] userinfoByte 256 257 = true
  loops_path : loops [513] pathByte 243 244 = true
  loops_query : loops [457] queryByte 7 8 = true
  loops_fragment : loops [454] queryByte 1 2 = true
  enters_userHosts : enters 511 regNameByte [.markh] userHosts 253 254 = true
  enters_hosts : enters 522 regNameByte [.markh] hosts 258 259 = true
  enters_query : enters 456 queryByte [.marku] [457] 7 8 = true
  enters_fragment : enters 453 queryByte [.marku] [454] 1 2 = true

theorem textRows : TextRows where
  loops_userHosts := by decide +kernel
  loops_hosts := by decide +kernel
  loops_userinfo := by decide +kernel
  loops_path := by decide +kernel
  loops_query := by decide +kernel
  loops_fragment := by decide +kernel
  enters_userHosts := by decide +kernel
  enters_hosts := by decide +kernel
  enters_query := by decide +kernel
  enters_fragment := by decide +kernel

/-! ## Texts over a set -/

section

variable {f : Nat → Option Registers → Action → Option Registers} {bytes : List (Nat × Nat)}
  {actions : List Action} {states : List Nat} {q first second : Nat} {text : Bytes}

theorem scan_byte (henters : enters q bytes actions states first second = true) {x : UInt8}
    (hx : within bytes x.toNat = true) :
    ∃ r ∈ states, ∀ p tail s,
      scan next f q p (x :: tail) s = scan next f r (p + 1) tail (actions.foldl (f p) s) := by
  simp only [enters, Bool.and_eq_true] at henters
  obtain ⟨r, hr, hnext⟩ := next_of_leads henters.1.1.1 hx
  exact ⟨r, hr, fun p tail s => scan_cons hnext p tail s⟩

theorem scan_pct (henters : enters q bytes actions states first second = true) {x y : UInt8}
    (hx : within hexDigit x.toNat = true) (hy : within hexDigit y.toNat = true) :
    ∃ r ∈ states, ∀ p tail s,
      scan next f q p (37 :: x :: y :: tail) s =
        scan next f r (p + 3) tail (actions.foldl (f p) s) := by
  simp only [enters, Bool.and_eq_true] at henters
  obtain ⟨⟨⟨-, hpct⟩, hfirst⟩, hsecond⟩ := henters
  obtain ⟨mid, hmid, hnext⟩ := next_of_leads hfirst hx
  obtain ⟨r, hr, hlast⟩ := next_of_leads hsecond hy
  rw [List.mem_singleton] at hmid
  subst hmid
  refine ⟨r, hr, fun p tail s => ?_⟩
  rw [scan_cons (next_of_goes hpct), scan_cons hnext, scan_cons hlast]
  rfl

/-- A text keeps the automaton in its states, and does nothing. -/
theorem scan_loop (hloops : loops states bytes first second = true) (htext : Encoded bytes text)
    (hq : q ∈ states) :
    ∃ r ∈ states, ∀ p tail s, scan next f q p (text ++ tail) s =
      scan next f r (p + text.length) tail s := by
  induction htext generalizing q with
  | nil => exact ⟨q, hq, fun p tail s => rfl⟩
  | @byte x rest hx _ ih =>
      obtain ⟨mid, hmid, hfirst⟩ := scan_byte (f := f) (List.all_eq_true.mp hloops q hq) hx
      obtain ⟨r, hr, hrest⟩ := ih hmid
      refine ⟨r, hr, fun p tail s => ?_⟩
      rw [List.cons_append, hfirst, hrest, List.length_cons, Nat.add_right_comm p 1, Nat.add_assoc]
      rfl
  | @pct x y rest hx hy _ ih =>
      obtain ⟨mid, hmid, hfirst⟩ := scan_pct (f := f) (List.all_eq_true.mp hloops q hq) hx hy
      obtain ⟨r, hr, hrest⟩ := ih hmid
      refine ⟨r, hr, fun p tail s => ?_⟩
      rw [List.cons_append, List.cons_append, List.cons_append, hfirst, hrest]
      congr 1
      simp only [List.length_cons]
      omega

/-- A text that begins with an action, and goes on without one. -/
theorem scan_text (henters : enters q bytes actions states first second = true)
    (hloops : loops states bytes first second = true) (htext : Encoded bytes text)
    (hne : text ≠ []) :
    ∃ r ∈ states, ∀ p tail s, scan next f q p (text ++ tail) s =
      scan next f r (p + text.length) tail (actions.foldl (f p) s) := by
  cases htext with
  | nil => exact absurd rfl hne
  | @byte x rest hx hrest =>
      obtain ⟨mid, hmid, hfirst⟩ := scan_byte (f := f) henters hx
      obtain ⟨r, hr, hloop⟩ := scan_loop (f := f) hloops hrest hmid
      refine ⟨r, hr, fun p tail s => ?_⟩
      rw [List.cons_append, hfirst, hloop, List.length_cons, Nat.add_right_comm p 1, Nat.add_assoc]
  | @pct x y rest hx hy hrest =>
      obtain ⟨mid, hmid, hfirst⟩ := scan_pct (f := f) henters hx hy
      obtain ⟨r, hr, hloop⟩ := scan_loop (f := f) hloops hrest hmid
      refine ⟨r, hr, fun p tail s => ?_⟩
      rw [List.cons_append, List.cons_append, List.cons_append, hfirst, hloop]
      congr 1
      simp only [List.length_cons]
      omega

end

end Qslary.Uri
