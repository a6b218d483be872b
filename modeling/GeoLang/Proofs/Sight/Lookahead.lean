import GeoLang.Proofs.Braces.Placeholder
import GeoLang.Proofs.Reader.State
import GeoLang.Proofs.Sentence.Simple

namespace GeoLang.Grammar

open Cursor

variable {c d : Cursor} {p : Path} {op : Operator}

/-- The rule for paths reads what the look ahead has passed over, member by member. -/
theorem exists_members_of_assignsPath {c : Cursor} (hassigns : assignsPath c.rest = true) :
    c.peek.kind.isName = true ∧ ∃ members d op,
      Repeats (markAt .dot) (fun _ => member) c.advance members d [] ∧
        d.peek.kind.assignment? = some op := by
  obtain ⟨previous, rest, eof⟩ := c
  simp only at hassigns
  fun_induction assignsPath rest generalizing previous with
  | case1 t u ts ih =>
    obtain ⟨hname, hrest⟩ := Bool.and_eq_true_iff.1 hassigns
    refine ⟨hname, ?_⟩
    by_cases hdot : u.kind.isPunctuation .dot = true
    · rw [if_pos hdot] at hrest
      obtain ⟨hmember, members, d, op, hmembers, hop⟩ := ih (some u) hrest
      have hnext : markAt .dot u = some () := by rw [markAt, if_pos hdot]
      have hfirst : member.Returns ⟨some t, u :: ts, eof⟩ _ _ [] :=
        returns_member_iff.2 ⟨hmember, rfl, rfl, rfl⟩
      have hless : (Cursor.advance ⟨some u, ts, eof⟩).remaining < (u :: ts).length := by
        rw [remaining_advance, List.length_cons]
        exact Nat.lt_succ_of_le (Nat.sub_le ts.length 1)
      have hmore : Repeats (markAt .dot) (fun _ => member) ⟨some t, u :: ts, eof⟩ _ d ([] ++ []) :=
        .more hnext hfirst hless hmembers
      exact ⟨_, d, op, hmore, hop⟩
    · rw [if_neg hdot] at hrest
      obtain ⟨op, hop⟩ := Option.isSome_iff_exists.1 hrest
      have hnext : markAt .dot u = none := by rw [markAt, if_neg hdot]
      exact ⟨[], ⟨some t, u :: ts, eof⟩, op, .stop hnext, hop⟩
  | case2 => cases hassigns

/-- Where the look ahead says so, a path is read without errors up to an operator of assignment. -/
theorem exists_returns_path (hassigns : assignsPath c.rest = true) :
    ∃ p d op, path.Returns c p d [] ∧ d.peek.kind.assignment? = some op := by
  obtain ⟨hname, members, d, op, hmembers, hop⟩ := exists_members_of_assignsPath hassigns
  exact ⟨_, d, op, returns_path_iff.2 ⟨hname, members, hmembers, rfl⟩, hop⟩

/-- The look ahead says yes if and only if the rule for paths succeeds and stops in front of an
    assignment operator. -/
theorem assignsPath_iff (heof : c.eof.kind = .eof) :
    assignsPath c.rest = true ↔
      ∃ p d es op, path.Returns c p d es ∧ d.peek.kind.assignment? = some op := by
  constructor
  · intro hassigns
    obtain ⟨p, d, op, hpath, hop⟩ := exists_returns_path hassigns
    exact ⟨p, d, [], op, hpath, hop⟩
  · rintro ⟨p, d, es, op, hpath, hop⟩
    obtain ⟨ts, hreads, hform⟩ := exists_pathForm heof hpath
    have hkind := TokenKind.assignment?_eq_some_iff.1 hop
    have hne : d.rest ≠ [] :=
      rest_ne_nil_of_peek (by rw [hreads.eof, heof]) (by rw [hkind]; exact nofun)
    obtain ⟨u, us, hrest⟩ := List.exists_cons_of_ne_nil hne
    have hpeek : d.peek = u := by rw [Cursor.peek, hrest, List.headD_cons]
    rw [hpeek] at hkind hop
    rw [hreads.rest, hrest, hform.assignsPath_append (by simp [hkind])]
    simp [hop]

/-- Behind its target and the operator an assignment is its value. -/
theorem assignment_apply (hpath : path.Returns c p d []) (hop : d.peek.kind.assignment? = some op)
    (expression : Rule Expr) :
    assignment expression c =
      ⟨(expression d.advance).result.map fun v => .assignment p op v (p.span.merge v.span),
        (expression d.advance).cursor, (expression d.advance).errors⟩ := by
  have hresult : (path c).result = .ok p := by rw [hpath]
  have hbehind : assignment expression c =
      (expression >>= fun v => pure (.assignment p op v (p.span.merge v.span))) d.advance := by
    rw [assignment, Rule.bind_apply_ok hresult, hpath]
    simp [bind, Rule.bind, Grammar.peek, Grammar.advance, hop]
  rw [hbehind]
  cases hvalue : (expression d.advance).result with
  | error e =>
    rw [Rule.bind_apply_error hvalue]
    rfl
  | ok v =>
    rw [Rule.bind_apply_ok hvalue]
    simp [Rule.pure_apply, Except.map]

/-- There, an assignment is read. -/
theorem simple_apply (hassigns : assignsPath c.rest = true) (expression : Rule Expr) :
    simple expression c = assignment expression c := by
  simp [simple, bind, Rule.bind, atAssignment, hassigns]

/-- So it is in the header of a loop. -/
theorem update_apply (hassigns : assignsPath c.rest = true) (expression : Rule Expr) :
    update expression c = assignment expression c := by
  obtain ⟨hname, -⟩ := exists_members_of_assignsPath hassigns
  have hstep : stepAt c.peek = none := stepAt_of_isName hname
  simp [update, bind, Rule.bind, Grammar.peek, atAssignment, hstep, hassigns]

end GeoLang.Grammar
