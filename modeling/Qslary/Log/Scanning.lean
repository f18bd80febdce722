import Qslary.Log.Pattern

/-!
# Scanning a pattern

`LoggerFormatter::init` as it walks over the pattern with two indices, and the items that
it makes of the pieces.  It comes to an end on every pattern and cuts it into the pieces
that `LoggerFormatter.pieces` lists.
-/

namespace Qslary.Log

open Qslary.Foundation

/-! ## The items -/

structure LogEvent where
  content : Bytes
  file : Bytes
  line : UInt32
  elpase : UInt32
  threadId : UInt32
  fiberId : UInt32
  time : UInt64
  threadName : Bytes
  loggerName : Bytes

inductive FormatItem where
  | MessageFormatItem
  | LevelFormatItem
  | ElapseFormatItem
  | LoggerNameFormatItem
  | ThreadIdFormatItem
  | NewLineFormatItem
  | DateTimeFormatItem (m_format : Bytes)
  | FileNameFormatItem
  | LineFormatItem
  | TabFormatItem
  | FiberIdFormatItem
  | ThreadNameFormatItem
  | StringFormatItem (m_string : Bytes)
  deriving DecidableEq, Repr

namespace FormatItem

/-- `DateTimeFormatItem(date_format)` -/
def dateTime (date_format : Bytes) : FormatItem :=
  if date_format = [] then .DateTimeFormatItem (ascii "%Y-%m-%d %H:%M:%S")
  else .DateTimeFormatItem date_format

/-- `strftime` stands for what the buffer holds of the local time for a format. -/
def format (strftime : Bytes → UInt64 → Bytes) (level : LogLevel) (event : LogEvent) :
    FormatItem → Bytes
  | .MessageFormatItem => event.content
  | .LevelFormatItem => level.ToString
  | .ElapseFormatItem => decimal event.elpase.toNat
  | .LoggerNameFormatItem => event.loggerName
  | .ThreadIdFormatItem => decimal event.threadId.toNat
  | .NewLineFormatItem => ascii "\n"
  | .DateTimeFormatItem m_format => strftime (m_format.takeWhile (· ≠ 0)) event.time
  | .FileNameFormatItem => event.file
  | .LineFormatItem => decimal event.line.toNat
  | .TabFormatItem => ascii "\t"
  | .FiberIdFormatItem => decimal event.fiberId.toNat
  | .ThreadNameFormatItem => event.threadName
  | .StringFormatItem m_string => m_string

end FormatItem

namespace LoggerFormatter

def sFormatItems : List (String × (Bytes → FormatItem)) :=
  [ ("m", fun _ => .MessageFormatItem), ("p", fun _ => .LevelFormatItem),
    ("r", fun _ => .ElapseFormatItem), ("c", fun _ => .LoggerNameFormatItem),
    ("t", fun _ => .ThreadIdFormatItem), ("n", fun _ => .NewLineFormatItem),
    ("d", FormatItem.dateTime), ("f", fun _ => .FileNameFormatItem),
    ("l", fun _ => .LineFormatItem), ("T", fun _ => .TabFormatItem),
    ("F", fun _ => .FiberIdFormatItem), ("N", fun _ => .ThreadNameFormatItem) ]

/-- The item of a directive, if there is one of that name. -/
def itemNamed (name arg : Bytes) : Option FormatItem :=
  (sFormatItems.find? fun entry => ascii entry.1 = name).map fun entry => entry.2 arg

/-- The item of a piece, and whether it is an error. -/
def itemOf (piece : Piece) : FormatItem × Bool :=
  if piece.kind = 0 then (.StringFormatItem piece.text, false)
  else
    match itemNamed piece.text piece.arg with
    | none => (.StringFormatItem (ascii "<<error format %" ++ piece.text ++ ascii ">>"), true)
    | some item => (item, false)

/-! ## The two loops -/

def substr (partten : Bytes) (pos n : Nat) : Bytes := (partten.drop pos).take n

/-- The variables of the loop over `j`. -/
structure Cursor where
  j : Nat
  type_begin : Nat
  status : Nat
  format_str : Bytes
  type_str : Bytes

/-- The loop over `j`, of at most `fuel` turns. -/
def innerLoop (partten : Bytes) (format_begin : Nat) : Nat → Cursor → Option Cursor
  | 0, _ => none
  | fuel + 1, s =>
      match partten[s.j]? with
      | none => some s
      | some c =>
          if s.status = 0 ∧ isalpha c = false ∧ c ≠ 123 ∧ c ≠ 125 then
            some { s with format_str := substr partten format_begin (s.j - format_begin),
                          j := s.j - 1 }
          else if s.status = 0 ∧ c = 123 then
            innerLoop partten format_begin fuel
              { s with format_str := substr partten format_begin (s.j - format_begin),
                       type_begin := s.j + 1, j := s.j + 1, status := 1 }
          else if s.status = 1 ∧ c = 125 then
            some { s with type_str := substr partten s.type_begin (s.j - s.type_begin),
                          status := 0 }
          else innerLoop partten format_begin fuel { s with j := s.j + 1 }

/-- The loop over `i`, of at most `fuel` turns: the tuples, and `m_error`. -/
def outerLoop (partten : Bytes) :
    Nat → Nat → Bytes → List Piece → Bool → Option (List Piece × Bool)
  | 0, _, _, _, _ => none
  | fuel + 1, i, nstr, vec, m_error =>
      match partten[i]? with
      | none => some (vec ++ literal nstr, m_error)
      | some c =>
          if c ≠ 37 then outerLoop partten fuel (i + 1) (nstr ++ [c]) vec m_error
          else if partten[i + 1]? = some 37 then
            outerLoop partten fuel (i + 1) (nstr ++ [37]) vec m_error
          else
            match innerLoop partten (i + 1) fuel ⟨i + 1, 2 ^ 64 - 1, 0, [], []⟩ with
            | none => none
            | some s =>
                if s.status = 0 then
                  let format_str :=
                    if s.j = partten.length then substr partten (i + 1) (s.j - (i + 1))
                    else s.format_str
                  outerLoop partten fuel (s.j + 1) []
                    (vec ++ literal nstr ++ [⟨format_str, s.type_str, 1⟩]) m_error
                else
                  outerLoop partten fuel (s.j + 1) nstr
                    (vec ++ [⟨ascii "<<pattern error>>", s.format_str, 2⟩]) true

/-- `m_items` and `m_error`, if `fuel` turns are enough for each loop. -/
def init (f : LoggerFormatter) (fuel : Nat) : Option (List FormatItem × Bool) := do
  let (vec, m_error) ← outerLoop f.mPartten fuel 0 [] [] false
  some (vec.map fun piece => (itemOf piece).1, m_error || vec.any fun piece => (itemOf piece).2)

def items (f : LoggerFormatter) : List FormatItem := f.pieces.map fun piece => (itemOf piece).1

/-- `format(logger, level, event)` -/
def format (strftime : Bytes → UInt64 → Bytes) (f : LoggerFormatter) (level : LogLevel)
    (event : LogEvent) : Bytes :=
  f.items.flatMap (FormatItem.format strftime level event)

/-! ## The loop over `j` -/

variable {partten : Bytes}

theorem getElem?_of_drop {c : UInt8} {rest : Bytes} {j : Nat} (h : partten.drop j = c :: rest) :
    partten[j]? = some c ∧ partten.drop (j + 1) = rest := by
  constructor
  · rw [← Nat.add_zero j, ← List.getElem?_drop, h]
    rfl
  · rw [← List.drop_drop, h]
    rfl

theorem getElem?_of_drop_nil {j : Nat} (h : partten.drop j = []) : partten[j]? = none :=
  List.getElem?_eq_none (List.drop_eq_nil_iff.mp h)

theorem add_length_cons (j : Nat) (c : UInt8) (rest : Bytes) :
    j + (c :: rest).length = j + 1 + rest.length := by
  rw [List.length_cons]
  omega

/-- Once a brace is open, the loop looks for the one that closes it. -/
theorem innerLoop_open {b fuel j tb : Nat} {fs ts rest : Bytes} (hrest : partten.drop j = rest)
    (hfuel : rest.length < fuel) :
    innerLoop partten b fuel ⟨j, tb, 1, fs, ts⟩ =
      some (if 125 ∈ rest then
          let k := j + (rest.takeWhile (· ≠ 125)).length
          ⟨k, tb, 0, fs, substr partten tb (k - tb)⟩
        else ⟨j + rest.length, tb, 1, fs, ts⟩) := by
  induction rest generalizing j fuel with
  | nil =>
      cases fuel with
      | zero => cases hfuel
      | succ fuel => simp [innerLoop, getElem?_of_drop_nil hrest]
  | cons c rest ih =>
      obtain ⟨hc, hnext⟩ := getElem?_of_drop hrest
      cases fuel with
      | zero => cases hfuel
      | succ fuel =>
          by_cases hclose : c = 125
          · simp [innerLoop, hc, hclose]
          · have hloop := ih hnext (Nat.lt_of_succ_lt_succ hfuel)
            have hopen : (c :: rest).takeWhile (· ≠ 125) = c :: rest.takeWhile (· ≠ 125) := by
              simp [hclose]
            have hmem : 125 ∈ c :: rest ↔ 125 ∈ rest := by simp [Ne.symm hclose]
            simp only [hopen, hmem, add_length_cons, ← hloop]
            simp [innerLoop, hc, hclose]

theorem innerLoop_inName {b fuel j tb : Nat} {fs ts : Bytes} {c : UInt8} (hc : partten[j]? = some c)
    (hname : inName c = true) :
    innerLoop partten b (fuel + 1) ⟨j, tb, 0, fs, ts⟩ =
      innerLoop partten b fuel ⟨j + 1, tb, 0, fs, ts⟩ := by
  have hopen : ¬ (0 = 0 ∧ c = 123) := by
    rintro ⟨-, rfl⟩
    cases hname
  have hends : ¬ (0 = 0 ∧ isalpha c = false ∧ c ≠ 123 ∧ c ≠ 125) := by
    rintro ⟨-, halpha, -, hclose⟩
    simp [inName, halpha, hclose] at hname
  have hclosed : ¬ (0 = 1 ∧ c = 125) := nofun
  rw [innerLoop, hc]
  dsimp only
  rw [if_neg hends, if_neg hopen, if_neg hclosed]

/-- The name of a directive ends at a brace, or in front of anything else. -/
theorem innerLoop_name {b fuel j tb : Nat} {fs ts rest : Bytes} (hrest : partten.drop j = rest)
    (hfuel : rest.length < fuel) :
    innerLoop partten b fuel ⟨j, tb, 0, fs, ts⟩ =
      let k := j + (rest.takeWhile inName).length
      if rest.dropWhile inName = [] then some ⟨k, tb, 0, fs, ts⟩
      else if (rest.dropWhile inName).head? = some 123 then
        innerLoop partten b (rest.dropWhile inName).length
          ⟨k + 1, k + 1, 1, substr partten b (k - b), ts⟩
      else some ⟨k - 1, tb, 0, substr partten b (k - b), ts⟩ := by
  induction rest generalizing j fuel with
  | nil =>
      cases fuel with
      | zero => cases hfuel
      | succ fuel => simp [innerLoop, getElem?_of_drop_nil hrest]
  | cons c rest ih =>
      obtain ⟨hc, hnext⟩ := getElem?_of_drop hrest
      cases fuel with
      | zero => cases hfuel
      | succ fuel =>
          have hless := Nat.lt_of_succ_lt_succ hfuel
          cases hname : inName c with
          | true =>
              have htake : (c :: rest).takeWhile inName = c :: rest.takeWhile inName := by
                simp [hname]
              have hdrop : (c :: rest).dropWhile inName = rest.dropWhile inName := by
                simp [hname]
              simp only [htake, hdrop, add_length_cons]
              rw [innerLoop_inName hc hname, ih hnext hless]
          | false =>
              have hend : isalpha c = false ∧ c ≠ 125 := by
                simpa [inName] using hname
              by_cases hopen : c = 123
              · subst hopen
                have hopens : innerLoop partten b (fuel + 1) ⟨j, tb, 0, fs, ts⟩ =
                    innerLoop partten b fuel ⟨j + 1, j + 1, 1, substr partten b (j - b), ts⟩ := by
                  rw [innerLoop, hc]
                  rfl
                have hdrop : (123 :: rest).dropWhile inName = 123 :: rest := rfl
                have htake : (123 :: rest).takeWhile inName = [] := rfl
                rw [hopens, hdrop, htake, innerLoop_open hnext hless]
                exact (innerLoop_open hnext (Nat.lt_succ_self _)).symm
              · simp [innerLoop, hc, hend, hopen, hname]

theorem drop_of_drop {b : Nat} {front back : Bytes} (h : partten.drop b = front ++ back) :
    partten.drop (b + front.length) = back := by
  rw [← List.drop_drop, h, List.drop_left]

theorem substr_of_drop {b : Nat} {front back : Bytes} (h : partten.drop b = front ++ back) :
    substr partten b (b + front.length - b) = front := by
  rw [substr, h, Nat.add_sub_cancel_left, List.take_left]

theorem ne_length_of_drop {j : Nat} {c : UInt8} {rest : Bytes} (h : partten.drop j = c :: rest) :
    j ≠ partten.length := by
  rintro rfl
  rw [List.drop_length] at h
  cases h

theorem takeWhile_before {arg : Bytes} (h : 125 ∉ arg) (after : Bytes) :
    (arg ++ 125 :: after).takeWhile (· ≠ 125) = arg ∧
      (arg ++ 125 :: after).dropWhile (· ≠ 125) = 125 :: after := by
  have hall : ∀ c ∈ arg, decide (c ≠ 125) = true := by
    intro c hc
    have hne : c ≠ 125 := fun heq => h (heq ▸ hc)
    simpa using hne
  constructor
  · rw [List.takeWhile_append_of_pos hall]
    simp
  · rw [List.dropWhile_append_of_pos hall]
    simp

theorem dropWhile_none {inside : Bytes} (h : 125 ∉ inside) :
    inside.dropWhile (· ≠ 125) = [] := by
  rw [List.dropWhile_eq_nil_iff]
  intro c hc
  have hne : c ≠ 125 := fun heq => h (heq ▸ hc)
  simpa using hne

/-! ## Where a directive ends -/

variable {rest inside after : Bytes}

theorem directive_end (h : rest.dropWhile inName = []) :
    directive rest = (⟨rest.takeWhile inName, [], 1⟩, []) := by
  rw [directive, h]

theorem directive_open (h : rest.dropWhile inName = 123 :: inside) :
    directive rest =
      match inside.dropWhile (· ≠ 125) with
      | [] => (⟨ascii "<<pattern error>>", rest.takeWhile inName, 2⟩, [])
      | _ :: after => (⟨rest.takeWhile inName, inside.takeWhile (· ≠ 125), 1⟩, after) := by
  rw [directive, h]
  rfl

theorem directive_closed {arg : Bytes} (h : rest.dropWhile inName = 123 :: (arg ++ 125 :: after))
    (harg : 125 ∉ arg) : directive rest = (⟨rest.takeWhile inName, arg, 1⟩, after) := by
  obtain ⟨htake, hdrop⟩ := takeWhile_before harg after
  rw [directive_open h, htake, hdrop]

theorem directive_unclosed (h : rest.dropWhile inName = 123 :: inside) (hclose : 125 ∉ inside) :
    directive rest = (⟨ascii "<<pattern error>>", rest.takeWhile inName, 2⟩, []) := by
  rw [directive_open h, dropWhile_none hclose]

theorem directive_other {c : UInt8} (h : rest.dropWhile inName = c :: after) (hopen : c ≠ 123) :
    directive rest = (⟨rest.takeWhile inName, [], 1⟩, c :: after) := by
  rw [directive, h]
  split
  · rename_i heq
    exact absurd (List.cons.inj heq).1 hopen
  · rfl

/-- The loop ends where the directive does, with the piece in its variables. -/
theorem innerLoop_directive {b fuel : Nat} (hpos : 0 < b) (hb : b ≤ partten.length)
    (hfuel : partten.length - b < fuel) :
    ∃ s, innerLoop partten b fuel ⟨b, 2 ^ 64 - 1, 0, [], []⟩ = some s ∧
      partten.drop (s.j + 1) = (directive (partten.drop b)).2 ∧
      ((s.status = 0 ∧ (directive (partten.drop b)).1 =
          ⟨if s.j = partten.length then substr partten b (s.j - b) else s.format_str,
            s.type_str, 1⟩) ∨
        (s.status ≠ 0 ∧ (directive (partten.drop b)).1 =
          ⟨ascii "<<pattern error>>", s.format_str, 2⟩)) := by
  obtain ⟨rest, hrest⟩ : ∃ rest, partten.drop b = rest := ⟨_, rfl⟩
  have hlength : b + rest.length = partten.length := by
    rw [← hrest, List.length_drop]
    omega
  have hless : rest.length < fuel := by omega
  rw [hrest, innerLoop_name hrest hless]
  have hsplit : partten.drop b = rest.takeWhile inName ++ rest.dropWhile inName := by
    rw [hrest, List.takeWhile_append_dropWhile]
  have hname := substr_of_drop hsplit
  have hdrop := drop_of_drop hsplit
  cases hcase : rest.dropWhile inName with
  | nil =>
      have hall : rest.takeWhile inName = rest := by
        have happend := List.takeWhile_append_dropWhile (p := inName) (l := rest)
        rwa [hcase, List.append_nil] at happend
      rw [directive_end hcase]
      rw [hall] at hname ⊢
      refine ⟨_, rfl, List.drop_eq_nil_of_le ?_, Or.inl ⟨rfl, ?_⟩⟩
      · dsimp only
        omega
      · rw [if_pos hlength, hname]
  | cons c inside =>
      rw [hcase] at hdrop
      have hbound := congrArg List.length hdrop
      rw [List.length_drop, List.length_cons] at hbound
      rw [if_neg (List.cons_ne_nil c inside)]
      by_cases hopen : c = 123
      · subst hopen
        obtain ⟨-, hinside⟩ := getElem?_of_drop hdrop
        have hshorter : inside.length < (123 :: inside).length := Nat.lt_succ_self _
        rw [if_pos (by rfl), innerLoop_open hinside hshorter, hname]
        by_cases hclose : 125 ∈ inside
        · obtain ⟨arg, after, rfl, harg⟩ := List.eq_append_cons_of_mem hclose
          have hend := drop_of_drop hinside
          obtain ⟨-, hafter⟩ := getElem?_of_drop hend
          rw [directive_closed hcase harg, if_pos hclose, (takeWhile_before harg after).1]
          dsimp only
          rw [substr_of_drop hinside]
          refine ⟨_, rfl, hafter, Or.inl ⟨rfl, ?_⟩⟩
          rw [if_neg (ne_length_of_drop hend)]
        · rw [directive_unclosed hcase hclose, if_neg hclose]
          refine ⟨_, rfl, List.drop_eq_nil_of_le ?_, Or.inr ⟨nofun, rfl⟩⟩
          dsimp only
          omega
      · have hother : ¬ (c :: inside).head? = some 123 := fun h => hopen (Option.some.inj h)
        have hback : b + (rest.takeWhile inName).length - 1 + 1 =
            b + (rest.takeWhile inName).length := by omega
        rw [directive_other hcase hopen, if_neg hother]
        refine ⟨_, rfl, ?_, Or.inl ⟨rfl, ?_⟩⟩
        · dsimp only
          rw [hback, hdrop]
        · dsimp only
          rw [if_neg (by omega), hname]

/-! ## The loop over `i` -/

theorem length_directive_le (rest : Bytes) : (directive rest).2.length ≤ rest.length := by
  have hsplit := List.takeWhile_append_dropWhile (p := inName) (l := rest)
  have hlength := congrArg List.length hsplit
  rw [List.length_append] at hlength
  cases hcase : rest.dropWhile inName with
  | nil => simp [directive_end hcase]
  | cons c inside =>
      rw [hcase, List.length_cons] at hlength
      by_cases hopen : c = 123
      · subst hopen
        by_cases hclose : 125 ∈ inside
        · obtain ⟨arg, after, rfl, harg⟩ := List.eq_append_cons_of_mem hclose
          rw [List.length_append, List.length_cons] at hlength
          rw [directive_closed hcase harg]
          dsimp only
          omega
        · simp [directive_unclosed hcase hclose]
      · rw [directive_other hcase hopen, List.length_cons]
        omega

theorem literal_any (nstr : Bytes) :
    (literal nstr).any (fun piece => piece.kind = 2) = false := by
  rw [literal]
  split <;> simp

/-- The loop adds the pieces of what is left of the pattern to its tuples. -/
theorem outerLoop_eq {fuel n i : Nat} {nstr rest : Bytes} (vec : List Piece) (m_error : Bool)
    (hrest : partten.drop i = rest) (hfuel : rest.length < fuel) (hn : rest.length ≤ n) :
    outerLoop partten fuel i nstr vec m_error =
      some (vec ++ scan n nstr rest,
        m_error || (scan n nstr rest).any fun piece => piece.kind = 2) := by
  induction fuel generalizing n i nstr rest vec m_error with
  | zero => cases hfuel
  | succ fuel ih =>
      cases rest with
      | nil =>
          have hliteral : scan n nstr [] = literal nstr := by cases n <;> rfl
          rw [outerLoop, getElem?_of_drop_nil hrest, hliteral, literal_any, Bool.or_false]
      | cons c rest =>
          obtain ⟨hc, hnext⟩ := getElem?_of_drop hrest
          cases n with
          | zero => cases hn
          | succ n =>
              have hless := Nat.lt_of_succ_lt_succ hfuel
              have hle := Nat.le_of_succ_le_succ hn
              rw [outerLoop, hc, scan]
              dsimp only
              by_cases hplain : c ≠ 37
              · rw [if_pos hplain, if_pos hplain]
                exact ih vec m_error hnext hless hle
              · have hhead : partten[i + 1]? = rest.head? := by
                  rw [← hnext, List.head?_drop]
                rw [if_neg hplain, if_neg hplain, hhead]
                by_cases hescape : rest.head? = some 37
                · rw [if_pos hescape, if_pos hescape]
                  exact ih vec m_error hnext hless hle
                · have hlength := congrArg List.length hrest
                  rw [List.length_drop, List.length_cons] at hlength
                  have hbound : i + 1 ≤ partten.length := by omega
                  have hturns : partten.length - (i + 1) < fuel := by omega
                  have hshorter := length_directive_le rest
                  obtain ⟨s, hloop, hafter, hpiece⟩ :=
                    innerLoop_directive (Nat.succ_pos i) hbound hturns
                  rw [hnext] at hafter hpiece
                  rw [if_neg hescape, if_neg hescape, hloop]
                  obtain ⟨⟨piece, after⟩, hdirective⟩ : ∃ d, directive rest = d := ⟨_, rfl⟩
                  rw [hdirective] at hafter hpiece hshorter ⊢
                  dsimp only at hafter hpiece hshorter ⊢
                  rcases hpiece with ⟨hstatus, rfl⟩ | ⟨hstatus, rfl⟩
                  · rw [if_pos hstatus, if_pos rfl,
                      ih (n := n) _ m_error hafter (by omega) (by omega)]
                    simp [literal_any]
                  · have htwo : ¬ 2 = 1 := by decide
                    rw [if_neg hstatus, if_neg htwo,
                      ih (n := n) _ true hafter (by omega) (by omega)]
                    simp

/-- An item is an error if it is that of a directive that does not exist. -/
theorem itemOf_error (piece : Piece) :
    (itemOf piece).2 =
      (decide (piece.kind ≠ 0) && !formatItems.any fun name => ascii name = piece.text) := by
  have hnames : (sFormatItems.find? fun entry => ascii entry.1 = piece.text).isSome =
      formatItems.any fun name => ascii name = piece.text := by
    have hmap : formatItems = sFormatItems.map Prod.fst := rfl
    rw [hmap, List.any_map, List.isSome_find?]
    rfl
  rw [itemOf, ← hnames]
  by_cases hkind : piece.kind = 0
  · simp [hkind]
  · rw [if_neg hkind, itemNamed]
    cases sFormatItems.find? fun entry => ascii entry.1 = piece.text <;> simp [hkind]

theorem isError_eq (f : LoggerFormatter) :
    f.isError = (f.pieces.any (fun piece => piece.kind = 2) ||
      f.pieces.any fun piece => (itemOf piece).2) := by
  simp only [itemOf_error, isError]
  induction f.pieces with
  | nil => rfl
  | cons piece pieces ih =>
      simp only [List.any_cons, ih]
      ac_rfl

theorem outerLoop_pieces {fuel : Nat} (hfuel : partten.length < fuel) :
    outerLoop partten fuel 0 [] [] false =
      some ((⟨partten⟩ : LoggerFormatter).pieces,
        (⟨partten⟩ : LoggerFormatter).pieces.any fun piece => piece.kind = 2) := by
  rw [outerLoop_eq [] false rfl hfuel (Nat.le_refl _)]
  rfl

/-- `init` comes to an end, with the items of the pieces. -/
theorem init_eq (f : LoggerFormatter) {fuel : Nat} (hfuel : f.mPartten.length < fuel) :
    f.init fuel = some (f.items, f.isError) := by
  rw [init, outerLoop_pieces hfuel, isError_eq]
  rfl

/-! ## What the pieces spell -/

/-- The text of a piece; `braces` says whether an argument that is empty is written. -/
def spell (braces : Bool) (piece : Piece) : Bytes :=
  if piece.kind = 0 then piece.text
  else
    37 :: piece.text ++
      if piece.arg = [] then if braces then [123, 125] else [] else 123 :: piece.arg ++ [125]

theorem directive_kind (rest : Bytes) :
    (directive rest).1.kind = 1 ∨ (directive rest).1.kind = 2 := by
  rw [directive]
  split
  · split
    · exact Or.inr rfl
    · exact Or.inl rfl
  · exact Or.inl rfl

theorem directive_text {rest : Bytes} (h : (directive rest).1.kind = 1) :
    (directive rest).1.text = rest.takeWhile inName := by
  cases hcase : rest.dropWhile inName with
  | nil => rw [directive_end hcase]
  | cons c inside =>
      by_cases hopen : c = 123
      · subst hopen
        by_cases hclose : 125 ∈ inside
        · obtain ⟨arg, after, rfl, harg⟩ := List.eq_append_cons_of_mem hclose
          rw [directive_closed hcase harg]
        · rw [directive_unclosed hcase hclose] at h
          cases h
      · rw [directive_other hcase hopen]

theorem directive_spells (h : (directive rest).1.kind = 1) :
    ∃ braces, spell braces (directive rest).1 ++ (directive rest).2 = 37 :: rest := by
  have hsplit := List.takeWhile_append_dropWhile (p := inName) (l := rest)
  cases hcase : rest.dropWhile inName with
  | nil =>
      rw [hcase, List.append_nil] at hsplit
      refine ⟨false, ?_⟩
      simp [directive_end hcase, spell, hsplit]
  | cons c inside =>
      rw [hcase] at hsplit
      by_cases hopen : c = 123
      · subst hopen
        by_cases hclose : 125 ∈ inside
        · obtain ⟨arg, after, rfl, harg⟩ := List.eq_append_cons_of_mem hclose
          refine ⟨true, ?_⟩
          have hspell : spell true ⟨rest.takeWhile inName, arg, 1⟩ ++ after =
              37 :: (rest.takeWhile inName ++ 123 :: (arg ++ 125 :: after)) := by
            cases arg <;> simp [spell]
          rw [directive_closed hcase harg, hspell, hsplit]
        · rw [directive_unclosed hcase hclose] at h
          cases h
      · refine ⟨false, ?_⟩
        simp [directive_other hcase hopen, spell, hsplit]

/-- The pieces in order, some of those with an empty argument with braces behind the name. -/
inductive Spells : List Piece → Bytes → Prop
  | nil : Spells [] []
  | cons (braces : Bool) {piece : Piece} {pieces : List Piece} {text : Bytes} :
      Spells pieces text → Spells (piece :: pieces) (spell braces piece ++ text)

theorem spells_literal {pieces : List Piece} {text : Bytes} (h : Spells pieces text)
    (nstr : Bytes) : Spells (literal nstr ++ pieces) (nstr ++ text) := by
  rw [literal]
  split
  · exact .cons false h
  · rename_i hnil
    rw [Classical.not_not.mp hnil]
    exact h

/-- Without an escape and an argument left open, no byte of the pattern is lost. -/
theorem scan_spells {n : Nat} {nstr rest : Bytes} (hn : rest.length ≤ n)
    (hescape : ¬ [37, 37] <:+: rest) (hopen : ∀ piece ∈ scan n nstr rest, piece.kind ≠ 2) :
    Spells (scan n nstr rest) (nstr ++ rest) := by
  have hend : ∀ nstr, Spells (literal nstr) (nstr ++ []) := by
    intro nstr
    simpa using spells_literal .nil nstr
  induction n generalizing nstr rest with
  | zero =>
      rw [List.eq_nil_of_length_eq_zero (Nat.le_zero.mp hn)]
      exact hend nstr
  | succ n ih =>
      cases rest with
      | nil => exact hend nstr
      | cons c rest =>
          have hle := Nat.le_of_succ_le_succ hn
          have hrest : ¬ [37, 37] <:+: rest := fun h => hescape (h.trans (List.suffix_cons c rest).isInfix)
          rw [scan] at hopen ⊢
          by_cases hplain : c ≠ 37
          · rw [if_pos hplain] at hopen ⊢
            have hspells := ih hle hrest hopen
            rwa [List.append_assoc] at hspells
          · obtain rfl := Classical.not_not.mp hplain
            have hnext : ¬ rest.head? = some 37 := by
              intro hhead
              obtain ⟨tail, rfl⟩ := List.head?_eq_some_iff.mp hhead
              exact hescape ⟨[], tail, rfl⟩
            rw [if_neg hplain, if_neg hnext] at hopen ⊢
            have hspells := @directive_spells rest
            have hkinds := directive_kind rest
            have hshorter := length_directive_le rest
            obtain ⟨⟨piece, after⟩, hdirective⟩ : ∃ d, directive rest = d := ⟨_, rfl⟩
            rw [hdirective] at hopen hspells hkinds hshorter ⊢
            dsimp only at hopen hspells hkinds hshorter ⊢
            by_cases hkind : piece.kind = 1
            · rw [if_pos hkind] at hopen ⊢
              obtain ⟨braces, hpiece⟩ := hspells hkind
              have hafter : ¬ [37, 37] <:+: after := by
                intro h
                have hsuffix : after <:+ 37 :: rest := ⟨_, hpiece⟩
                exact hescape (h.trans hsuffix.isInfix)
              have htail := ih (hshorter.trans hle) hafter fun p hp =>
                hopen p (List.mem_append_right _ (List.mem_cons_of_mem _ hp))
              rw [← hpiece]
              exact spells_literal (.cons braces htail) nstr
            · rw [if_neg hkind] at hopen
              exact absurd (hkinds.resolve_left hkind) (hopen piece List.mem_cons_self)

theorem kind_ne_of_not_isError {f : LoggerFormatter} (h : f.isError = false) :
    ∀ piece ∈ f.pieces, piece.kind ≠ 2 := by
  rw [isError_eq, Bool.or_eq_false_iff, List.any_eq_false] at h
  intro piece hpiece
  simpa using h.1 piece hpiece

/-- `init` ends on every pattern, and the pieces of an accepted one spell it. -/
theorem init_spells (partten : Bytes) :
    (∀ fuel, partten.length < fuel →
        (∃ m_error, outerLoop partten fuel 0 [] [] false =
          some ((⟨partten⟩ : LoggerFormatter).pieces, m_error)) ∧
        (⟨partten⟩ : LoggerFormatter).init fuel =
          some ((⟨partten⟩ : LoggerFormatter).items, (⟨partten⟩ : LoggerFormatter).isError)) ∧
      (¬ [37, 37] <:+: partten → (⟨partten⟩ : LoggerFormatter).isError = false →
        Spells (⟨partten⟩ : LoggerFormatter).pieces partten) := by
  refine ⟨fun fuel hfuel => ⟨⟨_, outerLoop_pieces hfuel⟩, init_eq ⟨partten⟩ hfuel⟩, ?_⟩
  intro hescape herror
  exact scan_spells (Nat.le_refl _) hescape (kind_ne_of_not_isError herror)

/-- The braces of an empty argument are not in the pieces. -/
theorem init_spells_braces :
    Spells (⟨ascii "%d{} at %m%n"⟩ : LoggerFormatter).pieces (ascii "%d{} at %m%n") :=
  (init_spells (ascii "%d{} at %m%n")).2 (by decide) (by decide +kernel)

end LoggerFormatter

end Qslary.Log
