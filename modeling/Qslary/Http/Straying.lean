import Qslary.Http.RequestRuns

/-!
# Tokens cut at registers of an earlier call

In a run from the start every register that a token is cut with points at a byte that
has been seen.  A second call begins with other values in these registers, so a token
that started before it is reported with another text.
-/

namespace Qslary.Http.Request

open Qslary.Foundation

/-! ## Registers that are known -/

/-- Registers point at bytes before `p`, and a name is not empty. -/
structure Seen (v : Written) (p : Nat) (s : HttpParser) : Prop where
  mark : v.mark = true → s.mark < p
  fieldStart : v.fieldStart = true → s.fieldStart < p
  fieldLen : v.fieldLen = true → 0 < s.fieldLen ∧ s.fieldStart + s.fieldLen ≤ p
  queryStart : v.queryStart = true → s.queryStart < p

/-- No name starts and ends on the same byte. -/
theorem table_names : (table.all fun row => row.all fun arc =>
    !(arc.actions.contains .fieldStart && arc.actions.contains .fieldLen)) = true := by
  decide +kernel

section

variable {uriRelaxed : Bool} {cs p : Nat} {byte : UInt8} {edge : Edge Nat Action}
variable {v v' w : Written} {s t : HttpParser} {buffer : Bytes}

theorem name_of_next (h : next uriRelaxed cs byte = some edge)
    (hlen : .fieldLen ∈ edge.actions) : .fieldStart ∉ edge.actions := by
  obtain ⟨row, arc, hrow, hmem, -, rfl⟩ := mem_of_next h
  have hrows := List.all_eq_true.mp table_names row (List.mem_of_getElem? hrow)
  have harc := List.all_eq_true.mp hrows arc hmem
  rw [List.contains_iff_mem.mpr hlen, Bool.and_true, Bool.not_eq_true'] at harc
  intro hstart
  rw [List.contains_iff_mem.mpr hstart] at harc
  cases harc

theorem Seen.mono (h : Seen v p s) (hle : w.le v = true) : Seen w p s := by
  simp only [Written.le, Bool.and_eq_true, Bool.or_eq_true, Bool.not_eq_true'] at hle
  obtain ⟨⟨⟨hmark, hstart⟩, hlen⟩, hquery⟩ := hle
  refine ⟨fun hw => h.mark ?_, fun hw => h.fieldStart ?_, fun hw => h.fieldLen ?_,
    fun hw => h.queryStart ?_⟩
  · exact hmark.resolve_left (by simp [hw])
  · exact hstart.resolve_left (by simp [hw])
  · exact hlen.resolve_left (by simp [hw])
  · exact hquery.resolve_left (by simp [hw])

/-- One action, before the position moves on. -/
theorem Seen.perform {action : Action} (h : Seen v (p + 1) s)
    (hstart : action = .fieldLen → v.fieldStart = true → s.fieldStart < p)
    (hv : v.perform action = some v') : Seen v' (p + 1) (s.perform buffer p action).1 := by
  cases action with
  | mark =>
      cases hv
      exact { h with mark := fun _ => Nat.lt_succ_self p }
  | fieldStart =>
      cases hv
      exact { h with fieldStart := fun _ => Nat.lt_succ_self p, fieldLen := nofun }
  | fieldLen =>
      cases hv
      refine ⟨h.mark, h.fieldStart, fun hflag => ?_, h.queryStart⟩
      have hlt := hstart rfl hflag
      show 0 < HttpParser.len s.fieldStart p ∧ s.fieldStart + HttpParser.len s.fieldStart p ≤ p + 1
      rw [len_eq hlt.le]
      omega
  | queryStart =>
      cases hv
      exact { h with queryStart := fun _ => Nat.lt_succ_self p }
  | headerDone =>
      cases hv
      simp only [HttpParser.perform, HttpParser.headerDone]
      split <;> exact ⟨h.mark, h.fieldStart, h.fieldLen, h.queryStart⟩
  | httpField | requestMethod | fragment | httpVersion | requestPath | queryString =>
      obtain ⟨-, hv⟩ := Option.ite_none_right_eq_some.mp hv
      cases hv
      exact h
  | requestUri =>
      cases hv
      exact h
  | xmlSent | jsonSent =>
      cases hv
      exact ⟨h.mark, h.fieldStart, h.fieldLen, h.queryStart⟩

theorem fieldStart_perform (s : HttpParser) (buffer : Bytes) (p : Nat) {action : Action}
    (hne : action ≠ .fieldStart) (hv : v.perform action = some v') :
    v'.fieldStart = v.fieldStart ∧
      (s.perform buffer p action).1.fieldStart = s.fieldStart := by
  cases action with
  | fieldStart => exact absurd rfl hne
  | headerDone =>
      cases hv
      refine ⟨rfl, ?_⟩
      simp only [HttpParser.perform, HttpParser.headerDone]
      split <;> rfl
  | httpField | requestMethod | fragment | httpVersion | requestPath | queryString =>
      obtain ⟨-, hv⟩ := Option.ite_none_right_eq_some.mp hv
      cases hv
      exact ⟨rfl, rfl⟩
  | mark | fieldLen | queryStart | requestUri | xmlSent | jsonSent =>
      cases hv
      exact ⟨rfl, rfl⟩

theorem Seen.foldl {actions : List Action} {rs : List Report} (h : Seen v (p + 1) s)
    (hstart : .fieldLen ∈ actions → .fieldStart ∉ actions ∧
      (v.fieldStart = true → s.fieldStart < p))
    (hv : actions.foldlM Written.perform v = some v') :
    Seen v' (p + 1) (actions.foldl (HttpParser.act buffer p) (s, rs)).1 := by
  induction actions generalizing v s rs with
  | nil =>
      cases hv
      exact h
  | cons action actions ih =>
      rw [List.foldlM_cons] at hv
      obtain ⟨u, hfirst, hrest⟩ := Option.bind_eq_some_iff.mp hv
      have hseen : Seen u (p + 1) (s.perform buffer p action).1 := by
        refine h.perform (fun heq => ?_) hfirst
        exact (hstart (heq ▸ List.mem_cons_self)).2
      refine ih hseen (fun hmem => ?_) hrest
      obtain ⟨hno, hlt⟩ := hstart (List.mem_cons_of_mem _ hmem)
      refine ⟨fun hin => hno (List.mem_cons_of_mem _ hin), fun hflag => ?_⟩
      have hne : action ≠ .fieldStart := fun heq => hno (heq ▸ List.mem_cons_self)
      obtain ⟨hsame, hregister⟩ := fieldStart_perform s buffer p hne hfirst
      show (s.perform buffer p action).1.fieldStart < p
      rw [hregister]
      exact hlt (hsame ▸ hflag)

theorem Seen.later (h : Seen v p s) : Seen v (p + 1) s := by
  refine ⟨fun hv => ?_, fun hv => ?_, fun hv => ?_, fun hv => ?_⟩
  · exact Nat.lt_succ_of_lt (h.mark hv)
  · exact Nat.lt_succ_of_lt (h.fieldStart hv)
  · exact ⟨(h.fieldLen hv).1, Nat.le_succ_of_le (h.fieldLen hv).2⟩
  · exact Nat.lt_succ_of_lt (h.queryStart hv)

theorem Seen.along {rs : List Report} (h : Seen (known cs) p s)
    (hnext : next uriRelaxed cs byte = some edge) :
    Seen (known edge.target) (p + 1)
      (edge.actions.foldl (HttpParser.act buffer p) (s, rs)).1 := by
  obtain ⟨w, hfold, hle⟩ := disciplined_of_next hnext
  have hseen : Seen w (p + 1) (edge.actions.foldl (HttpParser.act buffer p) (s, rs)).1 :=
    h.later.foldl (fun hmem => ⟨name_of_next hnext hmem, h.fieldStart⟩) hfold
  exact hseen.mono hle

/-- Where a scan from the start ends, the known registers point at bytes it has seen. -/
theorem seen_of_ended {bytes : Bytes} {r : Nat}
    (h : course (next uriRelaxed) 1 bytes = .ended r) :
    Seen (known r) bytes.length
      (scan (next uriRelaxed) (HttpParser.act buffer) 1 0 bytes (s, [])).state.1 := by
  have hstart : Seen (known 1) 0 s := ⟨nofun, nofun, nofun, nofun⟩
  have hscan := scan_invariant (next uriRelaxed) (HttpParser.act buffer)
    (fun cs p rest s => p + rest.length = bytes.length ∧ Seen (known cs) p s.1)
    (fun halt p s => ∀ r, halt = .ended r → Seen (known r) bytes.length s.1)
    ?_ ?_ ?_ ?_ (s := (s, [])) ⟨Nat.zero_add _, hstart⟩
  · rw [halt_eq_course] at hscan
    exact hscan r h
  · rintro cs p s ⟨hlength, hseen⟩ r heq
    cases heq
    rw [List.length_nil, Nat.add_zero] at hlength
    rw [← hlength]
    exact hseen
  · rintro cs p byte rest s - - r heq
    cases heq
  · rintro cs p byte rest edge s - - - r heq
    cases heq
  · rintro cs p byte rest edge s hnext - ⟨hlength, hseen⟩
    rw [List.length_cons] at hlength
    exact ⟨by omega, hseen.along hnext⟩

end

/-! ## Texts that differ -/

/-- Two texts that can be read alike are of one length. -/
theorem length_of_string {start start' : Bytes} {n n' : Nat} (hn : n ≤ start.length)
    (h : (string start n).toOption = (string start' n').toOption) : n = n' := by
  rw [string, if_pos hn, string] at h
  split at h
  · rename_i hn'
    have htext : start.take n = start'.take n' := Option.some.inj h
    have := congrArg List.length htext
    rw [List.length_take_of_le hn, List.length_take_of_le hn'] at this
    exact this
  · cases h

/-- The lists of tokens part at some place. -/
def Diverged (rs rs' : List Report) : Prop :=
  ∃ before x y tail tail', rs.filterMap Report.token = before ++ x :: tail ∧
    rs'.filterMap Report.token = before ++ y :: tail' ∧ x ≠ y

theorem Diverged.append {rs rs' : List Report} (h : Diverged rs rs') (more more' : List Report) :
    Diverged (rs ++ more) (rs' ++ more') := by
  obtain ⟨before, x, y, tail, tail', hrs, hrs', hne⟩ := h
  refine ⟨before, x, y, tail ++ more.filterMap Report.token,
    tail' ++ more'.filterMap Report.token, ?_, ?_, hne⟩
  · rw [List.filterMap_append, hrs, List.append_assoc, List.cons_append]
  · rw [List.filterMap_append, hrs', List.append_assoc, List.cons_append]

theorem Diverged.ne {rs rs' : List Report} (h : Diverged rs rs') :
    rs.filterMap Report.token ≠ rs'.filterMap Report.token := by
  obtain ⟨before, x, y, tail, tail', hrs, hrs', hne⟩ := h
  rw [hrs, hrs']
  intro heq
  exact hne (List.cons.inj (List.append_cancel_left heq)).1

theorem tokens_of_alike {rs rs' : List Report} (h : List.Forall₂ Report.Alike rs rs') :
    rs.filterMap Report.token = rs'.filterMap Report.token := by
  induction h with
  | nil => rfl
  | cons hhead _ ih => rw [List.filterMap_cons, List.filterMap_cons, hhead.token, ih]

theorem diverged_of_tokens {rs rs' : List Report} {r r' : Report} {x y : Token}
    (h : List.Forall₂ Report.Alike rs rs') (hr : r.token = some x) (hr' : r'.token = some y)
    (hne : x ≠ y) : Diverged (rs ++ [r]) (rs' ++ [r']) := by
  refine ⟨rs'.filterMap Report.token, x, y, [], [], ?_, ?_, hne⟩
  · rw [List.filterMap_append, tokens_of_alike h, List.filterMap_cons_some hr]
    rfl
  · rw [List.filterMap_append, List.filterMap_cons_some hr']
    rfl

/-! ## Registers of an earlier call -/

/--
Besides the registers that agree, those that are written in the whole run only: they
point before `d` there, and have been reset (or forgotten) in the second call.
-/
structure Strays (d p : Nat) (v w : Written) (s t : HttpParser) : Prop where
  agree : Agree d p w s t
  mark : v.mark = true → w.mark = false → s.mark < d ∧ t.mark = 0
  fieldStart : v.fieldStart = true → w.fieldStart = false → s.fieldStart < d ∧ t.fieldStart = 0
  fieldLen : v.fieldLen = true → w.fieldLen = false → t.fieldLen < s.fieldLen ∧
    s.fieldStart + s.fieldLen ≤ d + p
  queryStart : v.queryStart = true → w.queryStart = false → s.queryStart < d ∧
    t.queryStart = s.queryStart

section Strays

variable {whole part : Bytes} {d p : Nat} {v v' w : Written} {s t : HttpParser} {byte : UInt8}

theorem Strays.later (h : Strays d p v w s t) : Strays d (p + 1) v w s t :=
  { h with
    agree := h.agree.later
    fieldLen := fun hv hw => ⟨(h.fieldLen hv hw).1, Nat.le_succ_of_le (h.fieldLen hv hw).2⟩ }

/-- A token that starts at a stale register has another length in the second call. -/
theorem report_of_stale (hin : Inside whole part d) (hp : p < part.length) {m n : Nat}
    (hn : n < d) (hm : m = 0 ∨ m = n) {kind : Element} (hkind : kind ≠ .requestUri)
    (hdone : kind ≠ .headerDone) :
    ∃ r r' x y, [HttpParser.report whole (d + p) n kind] = [r] ∧
      [HttpParser.report part p m kind] = [r'] ∧ r.token = some x ∧ r'.token = some y ∧
      x ≠ y := by
  have hbound := hin.bound hp
  have hlength := hin.extends_part.length_le
  rw [List.length_drop] at hlength
  have hfits : HttpParser.len n (d + p) ≤ (whole.drop n).length := by
    rw [len_eq (by omega), List.length_drop]
    omega
  have hlen : HttpParser.len n (d + p) ≠ HttpParser.len m p := by
    rw [len_eq (by omega), HttpParser.len]
    split <;> omega
  have htoken : ∀ start length, (Report.element kind start length).token =
      some (.element kind (string start length).toOption) := by
    intro start length
    cases kind with
    | requestUri => exact absurd rfl hkind
    | headerDone => exact absurd rfl hdone
    | _ => rfl
  refine ⟨_, _, _, _, rfl, rfl, htoken _ _, htoken _ _, fun heq => ?_⟩
  exact hlen (length_of_string hfits (Token.element.inj heq).2)

theorem field_ne_of_stale (hin : Inside whole part d) (hp : p < part.length)
    (h : Strays d p v w s t) (hlen : v.fieldLen = true) (hmark : v.mark = true)
    (hw : (w.fieldLen && w.mark) = false) :
    ∃ x y, (Report.httpField (whole.drop s.fieldStart) s.fieldLen (whole.drop s.mark)
        (HttpParser.len s.mark (d + p))).token = some x ∧
      (Report.httpField (part.drop t.fieldStart) t.fieldLen (part.drop t.mark)
        (HttpParser.len t.mark p)).token = some y ∧ x ≠ y := by
  have hbound := hin.bound hp
  have hlength := hin.extends_part.length_le
  rw [List.length_drop] at hlength
  refine ⟨_, _, rfl, rfl, fun heq => ?_⟩
  obtain ⟨hname, hvalue⟩ := Token.field.inj heq
  cases hflag : w.fieldLen with
  | false =>
      obtain ⟨hlt, hfits⟩ := h.fieldLen hlen hflag
      have := length_of_string (by rw [List.length_drop]; omega) hname
      omega
  | true =>
      rw [hflag, Bool.true_and] at hw
      obtain ⟨hlt, hzero⟩ := h.mark hmark hw
      have hfits : HttpParser.len s.mark (d + p) ≤ (whole.drop s.mark).length := by
        rw [len_eq (by omega), List.length_drop]
        omega
      have := length_of_string hfits hvalue
      rw [len_eq (by omega), hzero, len_eq (Nat.zero_le _)] at this
      omega

/-- An action that may not be performed reports a token that differs. -/
theorem Strays.perform_none {action : Action} (h : Strays d p v w s t)
    (hin : Inside whole part d) (hp : p < part.length) (hv : v.perform action = some v')
    (hw : w.perform action = none) :
    ∃ r r' x y, (s.perform whole (d + p) action).2 = [r] ∧
      (t.perform part p action).2 = [r'] ∧ r.token = some x ∧ r'.token = some y ∧ x ≠ y := by
  cases action with
  | httpField =>
      obtain ⟨hflags, -⟩ := Option.ite_none_right_eq_some.mp hv
      rw [Bool.and_eq_true] at hflags
      have hstale : (w.fieldLen && w.mark) = false := by
        simpa [Written.perform] using hw
      obtain ⟨x, y, hx, hy, hne⟩ := field_ne_of_stale hin hp h hflags.1 hflags.2 hstale
      exact ⟨_, _, x, y, rfl, rfl, hx, hy, hne⟩
  | requestMethod | fragment | httpVersion | requestPath =>
      obtain ⟨hflag, -⟩ := Option.ite_none_right_eq_some.mp hv
      have hstale : w.mark = false := by simpa [Written.perform] using hw
      obtain ⟨hlt, hzero⟩ := h.mark hflag hstale
      exact report_of_stale hin hp hlt (.inl hzero) (by simp) (by simp)
  | queryString =>
      obtain ⟨hflag, -⟩ := Option.ite_none_right_eq_some.mp hv
      have hstale : w.queryStart = false := by simpa [Written.perform] using hw
      obtain ⟨hlt, hsame⟩ := h.queryStart hflag hstale
      exact report_of_stale hin hp hlt (.inr hsame) (by simp) (by simp)
  | mark | fieldStart | fieldLen | queryStart | requestUri | xmlSent | jsonSent | headerDone =>
      cases hw

theorem registers_headerDone (s : HttpParser) (buffer : Bytes) (p : Nat) :
    (s.headerDone buffer p).1.mark = s.mark ∧
      (s.headerDone buffer p).1.fieldStart = s.fieldStart ∧
      (s.headerDone buffer p).1.fieldLen = s.fieldLen ∧
      (s.headerDone buffer p).1.queryStart = s.queryStart := by
  unfold HttpParser.headerDone
  split <;> exact ⟨rfl, rfl, rfl, rfl⟩

theorem Strays.perform_some {action : Action} {w' : Written} (h : Strays d p v w s t)
    (hagree : Agree d p w' (s.perform whole (d + p) action).1 (t.perform part p action).1)
    (hv : v.perform action = some v') (hw : w.perform action = some w') :
    Strays d p v' w' (s.perform whole (d + p) action).1 (t.perform part p action).1 := by
  cases action with
  | mark =>
      cases hv
      cases hw
      exact ⟨hagree, nofun, h.fieldStart, h.fieldLen, h.queryStart⟩
  | fieldStart =>
      cases hv
      cases hw
      exact ⟨hagree, h.mark, nofun, nofun, h.queryStart⟩
  | fieldLen =>
      cases hv
      cases hw
      refine ⟨hagree, h.mark, h.fieldStart, fun hstart hstale => ?_, h.queryStart⟩
      obtain ⟨hlt, hzero⟩ := h.fieldStart hstart hstale
      show HttpParser.len t.fieldStart p < HttpParser.len s.fieldStart (d + p) ∧
        s.fieldStart + HttpParser.len s.fieldStart (d + p) ≤ d + p
      rw [hzero, len_eq (Nat.zero_le _), len_eq (by omega)]
      omega
  | queryStart =>
      cases hv
      cases hw
      exact ⟨hagree, h.mark, h.fieldStart, h.fieldLen, nofun⟩
  | httpField | requestMethod | fragment | httpVersion | requestPath | queryString =>
      obtain ⟨-, hv⟩ := Option.ite_none_right_eq_some.mp hv
      obtain ⟨-, hw⟩ := Option.ite_none_right_eq_some.mp hw
      cases hv
      cases hw
      exact h
  | requestUri =>
      cases hv
      cases hw
      exact h
  | xmlSent | jsonSent =>
      cases hv
      cases hw
      exact ⟨hagree, h.mark, h.fieldStart, h.fieldLen, h.queryStart⟩
  | headerDone =>
      cases hv
      cases hw
      have hs := registers_headerDone s whole (d + p)
      have ht := registers_headerDone t part p
      refine ⟨hagree, ?_, ?_, ?_, ?_⟩
      · simpa only [HttpParser.perform, hs, ht] using h.mark
      · simpa only [HttpParser.perform, hs, ht] using h.fieldStart
      · simpa only [HttpParser.perform, hs, ht] using h.fieldLen
      · simpa only [HttpParser.perform, hs, ht] using h.queryStart

/-- The actions of an edge keep the relation, or the tokens part. -/
theorem Strays.foldl {actions : List Action} {rs rs' : List Report} (h : Strays d p v w s t)
    (hreports : List.Forall₂ Report.Alike rs rs') (hin : Inside whole part d)
    (hbyte : part[p]? = some byte) (hspace : .requestMethod ∈ actions → byte = 32)
    (hv : actions.foldlM Written.perform v = some v') :
    (∃ w', actions.foldlM Written.perform w = some w' ∧
      Strays d p v' w' (actions.foldl (HttpParser.act whole (d + p)) (s, rs)).1
        (actions.foldl (HttpParser.act part p) (t, rs')).1 ∧
      List.Forall₂ Report.Alike (actions.foldl (HttpParser.act whole (d + p)) (s, rs)).2
        (actions.foldl (HttpParser.act part p) (t, rs')).2) ∨
    Diverged (actions.foldl (HttpParser.act whole (d + p)) (s, rs)).2
      (actions.foldl (HttpParser.act part p) (t, rs')).2 := by
  induction actions generalizing v w s t rs rs' with
  | nil =>
      cases hv
      exact .inl ⟨w, rfl, h, hreports⟩
  | cons action actions ih =>
      rw [List.foldlM_cons] at hv
      obtain ⟨u, hfirst, hrest⟩ := Option.bind_eq_some_iff.mp hv
      cases hw : w.perform action with
      | none =>
          obtain ⟨r, r', x, y, hr, hr', hx, hy, hne⟩ :=
            h.perform_none hin (lt_of_getElem? hbyte) hfirst hw
          have hdiverged := diverged_of_tokens hreports hx hy hne
          refine .inr ?_
          simp only [List.foldl_cons, HttpParser.act, hr, hr']
          rw [← List.append_nil (rs ++ [r]), ← List.append_nil (rs' ++ [r']), foldl_reports,
            foldl_reports]
          exact hdiverged.append _ _
      | some w' =>
          obtain ⟨hagree, halike⟩ := h.agree.perform hin hbyte
            (fun heq => hspace (heq ▸ List.mem_cons_self)) hw
          have hnext := ih (h.perform_some hagree hfirst hw) (List.rel_append hreports halike)
            (fun hmem => hspace (List.mem_cons_of_mem _ hmem)) hrest
          rw [List.foldlM_cons, hw]
          exact hnext

/-- A scan with a token that starts too early reports another token than the whole run. -/
theorem Strays.scan {uriRelaxed : Bool} {cs : Nat} {bytes : Bytes} {rs rs' : List Report}
    (h : Strays d p v w s t) (hknown : (known cs).le v = true)
    (hreports : List.Forall₂ Report.Alike rs rs') (hin : Inside whole part d)
    (hdrop : part.drop p = bytes) (htokens : tokensWithin uriRelaxed cs w bytes = false) :
    Diverged (scan (next uriRelaxed) (HttpParser.act whole) cs (d + p) bytes (s, rs)).state.2
      (scan (next uriRelaxed) (HttpParser.act part) cs p bytes (t, rs')).state.2 := by
  induction bytes generalizing cs p v w s t rs rs' with
  | nil => cases htokens
  | cons byte bytes ih =>
      have hbyte : part[p]? = some byte := by
        rw [← List.head?_drop, hdrop]
        rfl
      cases hnext : next uriRelaxed cs byte with
      | none => simp [tokensWithin, hnext] at htokens
      | some edge =>
          obtain ⟨u, hfold, htarget⟩ := disciplined_of_next hnext
          obtain ⟨v', hfold', hmono⟩ := Written.foldlM_mono hknown hfold
          simp only [Foundation.scan, hnext]
          rcases h.foldl hreports hin hbyte (space_of_next hnext) hfold' with
            ⟨w', hw, hstrays, halike⟩ | hdiverged
          · simp only [tokensWithin, hnext, hw, Bool.or_eq_false_iff] at htokens
            obtain ⟨hstops, htokens⟩ := htokens
            rw [hstops]
            refine ih hstrays.later (Written.le_trans htarget hmono) halike ?_ htokens
            rw [← List.tail_drop, hdrop]
            rfl
          · cases hstops : edge.stops with
            | true => exact hdiverged
            | false =>
                simp only [Bool.false_eq_true, if_false]
                generalize edge.actions.foldl (HttpParser.act whole (d + p)) (s, rs) = one
                  at hdiverged ⊢
                generalize edge.actions.foldl (HttpParser.act part p) (t, rs') = two
                  at hdiverged ⊢
                obtain ⟨s', rs₁⟩ := one
                obtain ⟨t', rs₂⟩ := two
                rw [scan_reports, scan_reports part]
                exact hdiverged.append _ _

end Strays

/-! ## After the end of a header -/

/-- From a final state on, what follows is taken for a header field. -/
def Arc.goesOn (arc : Arc) : Bool :=
  [14, 15].contains arc.target && !arc.actions.contains .headerDone

/-- A field is reported before anything else can be. -/
def Arc.staysInField (arc : Arc) : Bool :=
  arc.actions.contains .httpField ||
    ([14, 15, 16].contains arc.target && !arc.actions.contains .headerDone)

theorem table_final : (table[348]?.getD []).all Arc.goesOn = true ∧
    (table[349]?.getD []).all Arc.goesOn = true := by
  decide +kernel

theorem table_field :
    ([14, 15, 16].all fun cs => (table[cs]?.getD []).all Arc.staysInField) = true := by
  decide +kernel

theorem table_ends : (table.all fun row => row.all fun arc =>
    !arc.actions.contains .headerDone || [348, 349].contains arc.target) = true := by
  decide +kernel

section

variable {uriRelaxed : Bool} {cs p : Nat} {byte : UInt8} {edge : Edge Nat Action}
variable {s : HttpParser} {buffer : Bytes}

theorem tokens_foldl {actions : List Action} {rs : List Report}
    (h : rs.filterMap Report.token ≠ [] ∨ .httpField ∈ actions) :
    (actions.foldl (HttpParser.act buffer p) (s, rs)).2.filterMap Report.token ≠ [] := by
  induction actions generalizing s rs with
  | nil => exact h.resolve_right List.not_mem_nil
  | cons action actions ih =>
      refine ih ?_
      show (rs ++ (s.perform buffer p action).2).filterMap Report.token ≠ [] ∨ _
      rw [List.filterMap_append]
      rcases h with hrs | hmem
      · exact .inl fun hnil => hrs (List.append_eq_nil_iff.mp hnil).1
      · rcases List.mem_cons.mp hmem with rfl | hmem
        · refine .inl fun hnil => ?_
          cases (List.append_eq_nil_iff.mp hnil).2
        · exact .inr hmem

theorem ends_of_next (h : next uriRelaxed cs byte = some edge) (hstops : edge.stops = true) :
    edge.target = 348 ∨ edge.target = 349 := by
  obtain ⟨row, arc, hrow, hmem, -, rfl⟩ := mem_of_next h
  have hrows := List.all_eq_true.mp table_ends row (List.mem_of_getElem? hrow)
  have harc := List.all_eq_true.mp hrows arc hmem
  dsimp only at hstops
  rw [hstops, Bool.not_true, Bool.false_or] at harc
  simpa using harc

theorem goesOn_of_next (h : next uriRelaxed cs byte = some edge) (hcs : cs = 348 ∨ cs = 349) :
    [14, 15, 16].contains edge.target = true ∧ edge.stops = false := by
  obtain ⟨row, arc, hrow, hmem, -, rfl⟩ := mem_of_next h
  have harc : arc.goesOn = true := by
    rcases hcs with rfl | rfl
    · have hrows := table_final.1
      rw [hrow] at hrows
      exact List.all_eq_true.mp hrows arc hmem
    · have hrows := table_final.2
      rw [hrow] at hrows
      exact List.all_eq_true.mp hrows arc hmem
  simp only [Arc.goesOn, Bool.and_eq_true, Bool.not_eq_true'] at harc
  refine ⟨?_, harc.2⟩
  simp only [List.contains_iff_mem, List.mem_cons, List.not_mem_nil, or_false] at harc ⊢
  omega

theorem field_of_next (h : next uriRelaxed cs byte = some edge)
    (hcs : [14, 15, 16].contains cs = true) :
    .httpField ∈ edge.actions ∨
      [14, 15, 16].contains edge.target = true ∧ edge.stops = false := by
  obtain ⟨row, arc, hrow, hmem, -, rfl⟩ := mem_of_next h
  have hrows := List.all_eq_true.mp table_field cs (List.contains_iff_mem.mp hcs)
  rw [hrow] at hrows
  have harc := List.all_eq_true.mp hrows arc hmem
  simp only [Arc.staysInField, Bool.or_eq_true, Bool.and_eq_true, Bool.not_eq_true'] at harc
  rcases harc with harc | harc
  · exact .inl (List.contains_iff_mem.mp harc)
  · exact .inr harc

/-- A call from a final state reports a field, or it does not get to a final state. -/
theorem scan_of_final {bytes : Bytes} (hcs : cs = 348 ∨ cs = 349) (hne : bytes ≠ []) :
    (scan (next uriRelaxed) (HttpParser.act buffer) cs 0 bytes (s, [])).state.2.filterMap
        Report.token ≠ [] ∨
      HttpParser.haltState
        (scan (next uriRelaxed) (HttpParser.act buffer) cs 0 bytes (s, [])).halt < 348 := by
  have hlt : ∀ cs, [14, 15, 16].contains cs = true → cs < 348 := by
    intro cs hcs
    simp only [List.contains_iff_mem, List.mem_cons, List.not_mem_nil, or_false] at hcs
    omega
  cases bytes with
  | nil => exact absurd rfl hne
  | cons byte bytes =>
      rw [scan]
      cases hnext : next uriRelaxed cs byte with
      | none => exact .inr (show 0 < 348 by decide)
      | some edge =>
          obtain ⟨htarget, hstops⟩ := goesOn_of_next hnext hcs
          simp only [hstops, Bool.false_eq_true, if_false]
          refine scan_invariant (next uriRelaxed) (HttpParser.act buffer)
            (fun cs _ _ s => s.2.filterMap Report.token ≠ [] ∨ [14, 15, 16].contains cs = true)
            (fun halt _ s => s.2.filterMap Report.token ≠ [] ∨ HttpParser.haltState halt < 348)
            ?_ ?_ ?_ ?_ (.inr htarget)
          · exact fun cs _ _ h => h.imp_right (hlt cs)
          · exact fun _ _ _ _ _ _ h => .inr (by decide)
          · rintro cs p byte rest edge ⟨s, rs⟩ hnext hstops (htokens | hcs)
            · exact .inl (tokens_foldl (.inl htokens))
            · rcases field_of_next hnext hcs with hfield | ⟨-, hopen⟩
              · exact .inl (tokens_foldl (.inr hfield))
              · rw [hopen] at hstops
                cases hstops
          · rintro cs p byte rest edge ⟨s, rs⟩ hnext - (htokens | hcs)
            · exact .inl (tokens_foldl (.inl htokens))
            · rcases field_of_next hnext hcs with hfield | ⟨htarget, -⟩
              · exact .inl (tokens_foldl (.inr hfield))
              · exact .inr htarget

end

end Qslary.Http.Request
