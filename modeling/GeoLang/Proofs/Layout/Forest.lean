import Mathlib.Data.List.TakeWhile
import GeoLang.Proofs.Layout.Order
import GeoLang.Tree.Listing

namespace GeoLang

namespace Row

/-- Of the rows behind `r` those of the parts of its node, however deep they are. -/
def inner (r : Row) (rows : List Row) : List Row := rows.takeWhile (r.depth < ·.depth)

/-- Of the rows behind `r` those from the next node on that is no part of its node. -/
def outer (r : Row) (rows : List Row) : List Row := rows.dropWhile (r.depth < ·.depth)

/-- Each node has its parts inside of its span and whatever else follows behind it. -/
def Nested : List Row → Prop
  | [] => True
  | r :: rows => (∀ x ∈ r.inner rows, x.span.Inside r.span) ∧
      (∀ x ∈ r.outer rows, r.span.Before x.span) ∧ Nested rows

private theorem inner_of_deeper {r : Row} {rows : List Row}
    (hdeeper : ∀ x ∈ rows, r.depth < x.depth) :
    r.inner rows = rows :=
  List.takeWhile_eq_self_iff.2 fun x hx => decide_eq_true (hdeeper x hx)

private theorem outer_of_deeper {r : Row} {rows : List Row}
    (hdeeper : ∀ x ∈ rows, r.depth < x.depth) :
    r.outer rows = [] :=
  List.dropWhile_eq_nil_iff.2 fun x hx => decide_eq_true (hdeeper x hx)

variable {r : Row} {rows more : List Row}

/-- A row that is not deeper ends the rows of the parts. -/
theorem inner_append (hhead : ∀ x ∈ more.head?, x.depth ≤ r.depth) :
    r.inner (rows ++ more) = r.inner rows := by
  induction rows with
  | nil =>
    cases more with
    | nil => rfl
    | cons x more => exact List.takeWhile_cons_of_neg (by simpa using hhead x rfl)
  | cons x rows ih =>
    unfold inner at ih ⊢
    rw [List.cons_append, List.takeWhile_cons, List.takeWhile_cons, ih]

private theorem outer_append (hhead : ∀ x ∈ more.head?, x.depth ≤ r.depth) :
    r.outer (rows ++ more) = r.outer rows ++ more := by
  induction rows with
  | nil =>
    cases more with
    | nil => rfl
    | cons x more => exact List.dropWhile_cons_of_neg (by simpa using hhead x rfl)
  | cons x rows ih =>
    unfold outer at ih ⊢
    rw [List.cons_append, List.dropWhile_cons, List.dropWhile_cons, ih]
    split <;> rfl

/-- What is nested on its own stays so if something comes behind it that is no part of it. -/
theorem Nested.append {xs ys : List Row} (hxs : Nested xs) (hys : Nested ys)
    (hdepth : ∀ r ∈ xs, ∀ x ∈ ys.head?, x.depth ≤ r.depth)
    (hbefore : ∀ r ∈ xs, ∀ x ∈ ys, r.span.Before x.span) : Nested (xs ++ ys) := by
  induction xs with
  | nil => exact hys
  | cons r xs ih =>
    obtain ⟨hinner, houter, hrest⟩ := hxs
    obtain ⟨hdepthFirst, hdepthRest⟩ := List.forall_mem_cons.1 hdepth
    obtain ⟨hbeforeFirst, hbeforeRest⟩ := List.forall_mem_cons.1 hbefore
    rw [List.cons_append, Nested, inner_append hdepthFirst, outer_append hdepthFirst]
    exact ⟨hinner, List.forall_mem_append.2 ⟨houter, hbeforeFirst⟩, ih hrest hdepthRest hbeforeRest⟩

end Row

/-- The rows are those of nodes at `depth` and of their parts, all of them standing among the
    tokens. -/
structure Forest (ts : List Token) (depth : Nat) (rows : List Row) : Prop where
  nested : Row.Nested rows
  depth_head : ∀ r ∈ rows.head?, r.depth = depth
  depth_le : ∀ r ∈ rows, depth ≤ r.depth
  among : ∀ r ∈ rows, r.span.Among ts

namespace Forest

variable {ts us vs : List Token} {depth : Nat} {rows xs ys : List Row}

/-- No rows stand among any tokens. -/
theorem nil : Forest ts depth [] where
  nested := trivial
  depth_head _ hr := by cases hr
  depth_le _ hr := by cases hr
  among _ hr := by cases hr

/-- Two forests side by side. -/
theorem append (hxs : Forest us depth xs) (hys : Forest vs depth ys)
    (hordered : InSourceOrder (us ++ vs)) : Forest (us ++ vs) depth (xs ++ ys) where
  nested := by
    refine hxs.nested.append hys.nested ?_ ?_
    · intro r hr x hx
      rw [hys.depth_head x hx]
      exact hxs.depth_le r hr
    · intro r hr x hx
      exact (hxs.among r hr).before (hys.among x hx) hordered
  depth_head := by
    intro r hr
    cases xs with
    | nil => exact hys.depth_head r hr
    | cons x xs => exact hxs.depth_head r hr
  depth_le := List.forall_mem_append.2 ⟨hxs.depth_le, hys.depth_le⟩
  among := by
    refine List.forall_mem_append.2 ⟨?_, ?_⟩
    · exact fun r hr => (hxs.among r hr).append_right vs
    · exact fun r hr => (hys.among r hr).append_left us

/-- A node whose span bounds the tokens among which its parts stand. -/
theorem node {name : String} {kind : Option NodeKind} {detail : RowDetail} {s : Span}
    (hrows : Forest ts (depth + 1) rows) (hordered : InSourceOrder ts) (hbounds : s.Bounds ts) :
    Forest ts depth (⟨depth, name, kind, detail, s⟩ :: rows) where
  nested := by
    refine ⟨?_, ?_, hrows.nested⟩
    · rw [Row.inner_of_deeper hrows.depth_le]
      exact fun x hx => (hrows.among x hx).inside hordered hbounds
    · rw [Row.outer_of_deeper hrows.depth_le]
      exact List.forall_mem_nil _
  depth_head := by
    rintro x ⟨⟩
    rfl
  depth_le := by
    refine List.forall_mem_cons.2 ⟨Nat.le_refl _, ?_⟩
    intro x hx
    have hdeeper := hrows.depth_le x hx
    omega
  among := List.forall_mem_cons.2 ⟨hbounds.among, hrows.among⟩

end Forest

/-- The rows are those of the nodes that a part of a construct consists of, whatever tokens in the
    order of the text it stands for. -/
def Lies (depth : Nat) (part : List Token → Prop) (rows : List Row) : Prop :=
  ∀ ts, InSourceOrder ts → part ts → Forest ts depth rows

namespace Lies

variable {depth : Nat} {part : List Token → Prop} {parts : List (List Token → Prop)}
  {rows xs ys : List Row}

theorem nil : Lies depth (InTurn []) [] := fun _ _ _ => .nil

/-- The rows of parts in turn are those of the parts. -/
theorem cons (hpart : Lies depth part xs) (hparts : Lies depth (InTurn parts) ys) :
    Lies depth (InTurn (part :: parts)) (xs ++ ys) := by
  rintro ts hordered ⟨us, vs, rfl, hus, hvs⟩
  exact (hpart us hordered.left hus).append (hparts vs hordered.right hvs) hordered

/-- Single tokens are not listed. -/
theorem token {terminals : List Terminal} (hparts : Lies depth (InTurn parts) rows) :
    Lies depth (InTurn (Written terminals :: parts)) rows := by
  have hnone : Lies depth (Written terminals) [] := fun _ _ _ => .nil
  exact hnone.cons hparts

/-- A part behind which nothing is listed. -/
theorem closed (hpart : Lies depth part rows) (hparts : Lies depth (InTurn parts) []) :
    Lies depth (InTurn (part :: parts)) rows := by
  simpa using hpart.cons hparts

theorem last (hpart : Lies depth part rows) : Lies depth (InTurn [part]) rows := hpart.closed nil

variable {name : String} {kind : Option NodeKind} {detail : RowDetail} {s : Span}

/-- A part that is listed under a row of its own. -/
theorem node (hpart : Lies (depth + 1) part rows) (hbounds : ∀ ts, part ts → s.Bounds ts) :
    Lies depth part (⟨depth, name, kind, detail, s⟩ :: rows) :=
  fun ts hordered hts => (hpart ts hordered hts).node hordered (hbounds ts hts)

/-- A construct is listed under the row with its span. -/
theorem construct (hparts : Lies (depth + 1) (InTurn parts) rows) :
    Lies depth (s.Encloses parts) (⟨depth, name, kind, detail, s⟩ :: rows) :=
  node (fun ts hordered hencloses => hparts ts hordered hencloses.2) fun _ hencloses => hencloses.1

/-- Of parts that are alike each brings its own rows. -/
theorem flatMap {α : Type} {covers : α → List Token → Prop} {listing : α → List Row}
    (hover : ∀ a, Lies depth (covers a) (listing a)) (as : List α) :
    Lies depth (InTurn (as.map covers)) (as.flatMap listing) := by
  induction as with
  | nil => exact nil
  | cons a as ih => exact (hover a).cons ih

end Lies

end GeoLang
