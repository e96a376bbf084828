import Mathlib.Data.List.Forall2
import SteppedLogo.Proofs.Trace.Written
import SteppedLogo.Text.Blank

namespace SteppedLogo

namespace Text

/-- A blank ends a word. -/
theorem wordsFrom_append {blank : Char} (hblank : isBlank blank = true) (word cs rest : List Char) :
    wordsFrom word (cs ++ blank :: rest) = wordsFrom word cs ++ wordsFrom [] rest := by
  fun_induction wordsFrom word cs with
  | case1 word hword => simp [wordsFrom, hblank, hword]
  | case2 word hword => simp [wordsFrom, hblank, hword]
  | case3 word c cs hc hword ih => rw [List.cons_append, wordsFrom, if_pos hc, if_pos hword, ih]
  | case4 word c cs hc hword ih => rw [List.cons_append, wordsFrom, if_pos hc, if_neg hword, ih, List.cons_append]
  | case5 word c cs hc ih => rw [List.cons_append, wordsFrom, if_neg hc, ih]

/-- No word goes across a blank. -/
theorem words_append (front back : String) : words (front ++ " " ++ back) = words front ++ words back := by
  have hchars : (front ++ " " ++ back).toList = front.toList ++ ' ' :: back.toList := by
    simp
  rw [words, hchars, wordsFrom_append (by decide), List.map_append, words, words]

end Text

/-- The elements of joined lists are those of the lists and of what stands between them. -/
theorem mem_of_mem_intercalate {α : Type} {sep : List α} {ls : List (List α)} {a : α} (h : a ∈ sep.intercalate ls) :
    a ∈ sep ∨ ∃ l ∈ ls, a ∈ l := by
  induction ls with
  | nil => cases h
  | cons l rest ih =>
    cases rest with
    | nil => exact .inr ⟨l, List.mem_cons_self, by simpa using h⟩
    | cons k rest =>
      rw [List.intercalate_cons_cons, List.mem_append, List.mem_append] at h
      obtain (hl | hsep) | hrest := h
      · exact .inr ⟨l, List.mem_cons_self, hl⟩
      · exact .inl hsep
      · exact (ih hrest).imp_right fun ⟨x, hx, ha⟩ => ⟨x, List.mem_cons_of_mem l hx, ha⟩

theorem map_intercalate {α β : Type} (f : α → β) (sep : List α) (ls : List (List α)) :
    (sep.intercalate ls).map f = (sep.map f).intercalate (ls.map (List.map f)) := by
  induction ls with
  | nil => rfl
  | cons l rest ih =>
    cases rest with
    | nil => simp
    | cons k rest =>
      rw [List.map_cons] at ih
      rw [List.intercalate_cons_cons, List.map_append, List.map_append, ih, List.map_cons, List.map_cons,
        List.intercalate_cons_cons]

/-- The classes that the style of a fragment names. -/
def Fragment.classes (f : Fragment) : List String := Text.words f.1

namespace ViewNode

/-- The class of what is in a list, and that of what is in an active node. -/
def listClass : String := "class:list"

def activeClass : String := "class:active"

/-- A class that is added is the last word of a style. -/
theorem words_addClass {name word : String} (hword : Text.words ("class:" ++ name) = [word]) (style : String) :
    Text.words (addClass style name) = Text.words style ++ [word] := by
  rw [addClass]
  split
  · next hstyle =>
    rw [hstyle, hword]
    rfl
  · have hblank : " class:" ++ name = " " ++ ("class:" ++ name) := by
      rw [← String.append_assoc]
      rfl
    rw [String.append_assoc, hblank, ← String.append_assoc, Text.words_append, hword]

/-- Inside a node the style has a class more if the node is a list, and one if it is active. -/
theorem words_styleInside (style kind : String) (active : Bool) : Text.words (styleInside style kind active) =
    Text.words style ++ (if kind = listKind then [listClass] else []) ++ if active then [activeClass] else [] := by
  have hlist : Text.words ("class:" ++ "list") = [listClass] := by decide +kernel
  have hactive : Text.words ("class:" ++ "active") = [activeClass] := by decide +kernel
  rw [styleInside]
  by_cases hkind : kind = listKind <;> cases active <;> simp [hkind, words_addClass hlist, words_addClass hactive]

/-- Inside a node the active class is named when it was named around it or the node is active. -/
theorem active_mem_styleInside {style kind : String} {active : Bool} :
    activeClass ∈ Text.words (styleInside style kind active) ↔ activeClass ∈ Text.words style ∨ active = true := by
  have hother : activeClass ≠ listClass := by decide
  rw [words_styleInside]
  by_cases hkind : kind = listKind <;> cases active <;> simp [hkind, hother]

/-- Inside a node that is not active the style names no active class, if it did not around it. -/
theorem inactive_inside {style kind : String} {active : Bool} (hstyle : activeClass ∉ Text.words style)
    (hactive : active = false) :
    activeClass ∉ Text.words (styleInside style kind active) := by
  rw [active_mem_styleInside]
  simp [hstyle, hactive]

/-- A text that a tree shows, and the nodes that it is in, the innermost one first. -/
structure Stroke where
  within : List ViewNode
  text : String

mutual

/-- What a node shows where the nodes `outer` are around it: brackets and blanks belong to their list. -/
def strokesIn (outer : List ViewNode) : ViewNode → List Stroke
  | node i kind text active children =>
    let within := node i kind text active children :: outer
    if kind = listKind then
      ⟨within, "["⟩ :: [⟨within, " "⟩].intercalate (strokesOf within children) ++ [⟨within, "]"⟩]
    else [⟨within, text⟩]

def strokesOf (outer : List ViewNode) : List ViewNode → List (List Stroke)
  | [] => []
  | n :: rest => n.strokesIn outer :: strokesOf outer rest

end

def strokes (n : ViewNode) : List Stroke := n.strokesIn []

theorem strokesOf_eq (outer ns : List ViewNode) : strokesOf outer ns = ns.map (strokesIn outer) := by
  induction ns with
  | nil => rfl
  | cons n rest ih => rw [strokesOf, ih, List.map_cons]

/-- A list shows brackets around its children and blanks between them; an atom shows its text. -/
theorem strokesIn_node (outer : List ViewNode) (i : Identity) (kind text : String) (active : Bool)
    (children : List ViewNode) :
    (node i kind text active children).strokesIn outer =
      if kind = listKind then
        ⟨node i kind text active children :: outer, "["⟩ ::
          [⟨node i kind text active children :: outer, " "⟩].intercalate
            (children.map (strokesIn (node i kind text active children :: outer))) ++
          [⟨node i kind text active children :: outer, "]"⟩]
      else [⟨node i kind text active children :: outer, text⟩] := by
  rw [strokesIn, strokesOf_eq]

/-- The nodes around a text lead, from one that shows it, through lists up to the root of the tree. -/
structure Stroke.LiesIn (s : Stroke) (root : ViewNode) : Prop where
  nested : s.within.IsChain fun inner outer => outer.kind = listKind ∧ inner ∈ outer.children
  rooted : s.within.getLast? = some root

/-- The strokes of a node lie in each tree in which the node lies. -/
theorem liesIn_strokesIn {n root : ViewNode} {outer : List ViewNode}
    (hnested : (n :: outer).IsChain fun inner outer => outer.kind = listKind ∧ inner ∈ outer.children)
    (hrooted : (n :: outer).getLast? = some root) : ∀ s ∈ n.strokesIn outer, s.LiesIn root := by
  induction n using ofChildren generalizing outer with
  | node i kind text active children ih =>
    intro s hs
    rw [strokesIn_node] at hs
    split at hs
    · next hkind =>
      rw [List.mem_append, List.mem_cons, List.mem_singleton] at hs
      obtain (rfl | hs) | rfl := hs
      · exact ⟨hnested, hrooted⟩
      · obtain hsep | ⟨l, hl, hs⟩ := mem_of_mem_intercalate hs
        · obtain rfl := List.mem_singleton.1 hsep
          exact ⟨hnested, hrooted⟩
        · obtain ⟨n, hn, rfl⟩ := List.mem_map.1 hl
          refine ih n hn (List.isChain_cons_cons.2 ⟨?_, hnested⟩) hrooted s hs
          exact ⟨hkind, hn⟩
      · exact ⟨hnested, hrooted⟩
    · obtain rfl := List.mem_singleton.1 hs
      exact ⟨hnested, hrooted⟩

/-- The style inside of nodes, the innermost one first. -/
def styleWithin : List ViewNode → String
  | [] => ""
  | n :: outer => styleInside (styleWithin outer) n.kind n.isActive

def Stroke.styled (s : Stroke) : Fragment := (styleWithin s.within, s.text)

theorem painted_nil : painted [] = [] := by
  rw [painted]

theorem painted_text (s style : String) (rest : List (Piece × String)) :
    painted ((.text s, style) :: rest) = (style, s) :: painted rest := by
  rw [painted]

/-- Painting a list paints its brackets and, in between, its children; painting an atom paints its text. -/
theorem painted_node (i : Identity) (kind text : String) (active : Bool) (children : List ViewNode) (style : String)
    (rest : List (Piece × String)) : painted ((.node (.node i kind text active children), style) :: rest) =
      if kind = listKind then
        (styleInside style kind active, "[") :: painted ((spaced children).map (·, styleInside style kind active) ++
          (.text "]", styleInside style kind active) :: rest)
      else (styleInside style kind active, text) :: painted rest := by
  rw [painted]

/-- As with the text, the pieces in front do not look at those behind. -/
theorem painted_append (front back : List (Piece × String)) : painted (front ++ back) = painted front ++ painted back := by
  fun_induction painted front with
  | case1 => rfl
  | case2 s style rest ih => rw [List.cons_append, painted_text, ih, List.cons_append]
  | case3 i text active children style rest inner ih =>
    rw [List.cons_append, painted_node, if_pos rfl, ← List.cons_append, ← List.append_assoc, ih]
    rfl
  | case4 i kind text active children style rest inner hkind ih =>
    rw [List.cons_append, painted_node, if_neg hkind, ih]
    rfl

/-- Children are painted one by one, with blanks between them. -/
theorem painted_spaced (style : String) (children : List ViewNode) : painted ((spaced children).map (·, style)) =
    [(style, " ")].intercalate (children.map fun n => painted [(.node n, style)]) := by
  induction children with
  | nil => exact painted_nil
  | cons n rest ih =>
    cases rest with
    | nil => exact List.intercalate_singleton.symm
    | cons m rest =>
      have hsplit : (spaced (n :: m :: rest)).map (·, style) =
          [(.node n, style)] ++ ([(.text " ", style)] ++ (spaced (m :: rest)).map (·, style)) := rfl
      rw [List.map_cons] at ih
      rw [hsplit, painted_append, painted_append, ih, painted_text, painted_nil, List.map_cons, List.map_cons,
        List.intercalate_cons_cons, List.append_assoc]

/-- Inside the nodes `outer`, a node is painted as what it shows there. -/
theorem painted_strokesIn (outer : List ViewNode) (n : ViewNode) :
    painted [(.node n, styleWithin outer)] = (n.strokesIn outer).map Stroke.styled := by
  induction n using ofChildren generalizing outer with
  | node i kind text active children ih =>
    have hstyle : styleInside (styleWithin outer) kind active = styleWithin
      (node i kind text active children :: outer) := rfl
    rw [painted_node, strokesIn_node, hstyle]
    generalize node i kind text active children :: outer = within
    have hchildren : (children.map fun n => painted [(.node n, styleWithin within)]) =
        (children.map (strokesIn within)).map (List.map Stroke.styled) := by
      rw [List.map_map]
      exact List.map_congr_left fun n hn => ih n hn within
    split
    · rw [painted_append, painted_spaced, hchildren, painted_text, painted_nil, List.map_append, List.map_cons,
        map_intercalate]
      rfl
    · rw [painted_nil]
      rfl

/-- The fragments of a tree are the texts that it shows, each in the style inside the nodes around it. -/
theorem fragments_eq (n : ViewNode) : n.fragments = n.strokes.map Stroke.styled := painted_strokesIn [] n

/-- The classes of a text name each list around it once, and tell whether an active node is around it. -/
theorem count_words_styleWithin (within : List ViewNode) :
    (Text.words (styleWithin within)).count listClass = within.countP (·.kind = listKind) := by
  have hother : activeClass ≠ listClass := by decide
  induction within with
  | nil => rfl
  | cons n outer ih =>
    rw [styleWithin, words_styleInside, List.count_append, List.count_append, ih, List.countP_cons]
    by_cases hkind : n.kind = listKind <;> cases n.isActive <;> simp [hkind, hother]

/-- The style inside of nodes names the active class if one of them is active. -/
theorem active_mem_styleWithin {within : List ViewNode} :
    activeClass ∈ Text.words (styleWithin within) ↔ ∃ n ∈ within, n.isActive = true := by
  induction within with
  | nil => simp [styleWithin, Text.words, Text.wordsFrom]
  | cons n outer ih =>
    rw [styleWithin, active_mem_styleInside, ih, List.exists_mem_cons_iff, or_comm]

theorem map_fst_styled (pieces : List Piece) (style : String) : (pieces.map (·, style)).map Prod.fst = pieces := by
  rw [List.map_map]
  exact List.map_id _

/-- What is painted is what is written. -/
theorem map_snd_painted (pieces : List (Piece × String)) :
    (painted pieces).map Prod.snd = written false (pieces.map Prod.fst) := by
  have hclosing (active : Bool) : closing false active = "" := rfl
  fun_induction painted pieces with
  | case1 => rw [List.map_nil, List.map_nil, written_nil]
  | case2 s style rest ih => rw [List.map_cons, ih, List.map_cons, written_text]
  | case3 i text active children style rest inner ih =>
    rw [List.map_cons, ih, List.map_append, map_fst_styled, List.map_cons, List.map_cons, written_node, if_pos rfl, hclosing,
      String.append_empty]
    rfl
  | case4 i kind text active children style rest inner hkind ih =>
    rw [List.map_cons, ih, List.map_cons, written_node, if_neg hkind, hclosing, String.append_empty]
    rfl

/-- The text of some fragments. -/
def textOf (fs : List Fragment) : String := String.join (fs.map Prod.snd)

theorem textOf_cons (f : Fragment) (rest : List Fragment) : textOf (f :: rest) = f.2 ++ textOf rest := by
  rw [textOf, List.map_cons, String.join_cons, textOf]

theorem textOf_append (front back : List Fragment) : textOf (front ++ back) = textOf front ++ textOf back := by
  rw [textOf, List.map_append, String.join_append, textOf, textOf]

/-- The fragments of a node have its text. -/
theorem textOf_painted (n : ViewNode) (style : String) : textOf (painted [(.node n, style)]) = n.toText false := by
  rw [textOf, map_snd_painted]
  rfl

/-- What is in a list is to have the style inside it. -/
theorem styles_inside {P : String → Prop} {inner : String} {rest : List (Piece × String)} (hinner : P inner)
    (hrest : ∀ p ∈ rest, P p.2) (children : List ViewNode) :
    ∀ p ∈ (spaced children).map (·, inner) ++ (.text "]", inner) :: rest, P p.2 := by
  rw [List.forall_mem_append, List.forall_mem_map, List.forall_mem_cons]
  exact ⟨fun _ _ => hinner, hinner, hrest⟩

/-- Where everything that is left is to be active, all that is painted is. -/
theorem active_painted {pieces : List (Piece × String)} (h : ∀ p ∈ pieces, activeClass ∈ Text.words p.2) :
    ∀ f ∈ painted pieces, activeClass ∈ Fragment.classes f := by
  fun_induction painted pieces with
  | case1 => simp
  | case2 s style rest ih =>
    rw [List.forall_mem_cons] at h ⊢
    exact ⟨h.1, ih h.2⟩
  | case3 i text active children style rest inner ih =>
    rw [List.forall_mem_cons] at h ⊢
    have hinner : activeClass ∈ Text.words inner := active_mem_styleInside.2 (.inl h.1)
    exact ⟨hinner, ih (styles_inside (P := (activeClass ∈ Text.words ·)) hinner h.2 children)⟩
  | case4 i kind text active children style rest inner hkind ih =>
    rw [List.forall_mem_cons] at h ⊢
    exact ⟨active_mem_styleInside.2 (.inl h.1), ih h.2⟩

/-- All fragments of an active node have the active class. -/
theorem active_painted_node {n : ViewNode} (hactive : n.isActive = true) (style : String) :
    ∀ f ∈ painted [(.node n, style)], activeClass ∈ Fragment.classes f := by
  obtain ⟨i, kind, text, active, children⟩ := n
  have hinner : activeClass ∈ Text.words (styleInside style kind active) := active_mem_styleInside.2 (.inr hactive)
  rw [painted_node]
  split
  · rw [List.forall_mem_cons]
    exact ⟨hinner, active_painted (styles_inside (P := (activeClass ∈ Text.words ·)) hinner (by simp) children)⟩
  · rw [List.forall_mem_cons, painted_nil]
    exact ⟨hinner, by simp⟩

/-- The nodes that pieces show. -/
def shownIn (pieces : List (Piece × String)) : List ViewNode := pieces.flatMap (·.1.shown)

/-- A list is shown in front of its children. -/
theorem shownIn_list (i : Identity) (text : String) (active : Bool) (children : List ViewNode) (style inner : String)
    (rest : List (Piece × String)) : shownIn ((.node (.node i listKind text active children), style) :: rest) =
      .node i listKind text active children :: shownIn ((spaced children).map (·, inner) ++ (.text "]", inner) :: rest) := by
  have hchildren : ((spaced children).map (·, inner)).flatMap (·.1.shown) = children.flatMap shown := by
    rw [List.flatMap_map]
    exact shown_spaced children
  rw [shownIn, shownIn, List.flatMap_append, hchildren, List.flatMap_cons, Piece.shown, shown_node, if_pos rfl]
  rfl

/-- An atom shows itself alone. -/
theorem shownIn_atom (i : Identity) {kind : String} (hkind : kind ≠ listKind) (text : String) (active : Bool)
    (children : List ViewNode) (style : String) (rest : List (Piece × String)) :
    shownIn ((.node (.node i kind text active children), style) :: rest) =
      .node i kind text active children :: shownIn rest := by
  rw [shownIn, List.flatMap_cons, Piece.shown, shown_node, if_neg hkind]
  rfl

/-- Where no node that is shown is active and nothing was to be active before, nothing that is painted is. -/
theorem inactive_painted {pieces : List (Piece × String)} (hshown : ∀ n ∈ shownIn pieces, n.isActive = false)
    (h : ∀ p ∈ pieces, activeClass ∉ Text.words p.2) : ∀ f ∈ painted pieces, activeClass ∉ Fragment.classes f := by
  fun_induction painted pieces with
  | case1 => simp
  | case2 s style rest ih =>
    rw [List.forall_mem_cons] at h ⊢
    exact ⟨h.1, ih hshown h.2⟩
  | case3 i text active children style rest inner ih =>
    rw [shownIn_list i text active children style inner rest, List.forall_mem_cons] at hshown
    rw [List.forall_mem_cons] at h ⊢
    have hinner : activeClass ∉ Text.words inner := inactive_inside h.1 hshown.1
    exact ⟨hinner, ih hshown.2 (styles_inside (P := (activeClass ∉ Text.words ·)) hinner h.2 children)⟩
  | case4 i kind text active children style rest inner hkind ih =>
    rw [shownIn_atom i hkind, List.forall_mem_cons] at hshown
    rw [List.forall_mem_cons] at h ⊢
    exact ⟨inactive_inside h.1 hshown.1, ih hshown.2 h.2⟩

/-- The node `m` is painted in a piece of its own, and nothing else is active; with marks its text stands between them
    and the rest is as in the fragments. -/
def Singles (pieces : List (Piece × String)) (m : ViewNode) : Prop :=
  ∃ front style back, painted pieces = front ++ painted [(.node m, style)] ++ back ∧
    String.join (written true (pieces.map Prod.fst)) = textOf front ++ (">>" ++ m.toText false ++ "<<") ++ textOf back ∧
    ∀ f ∈ front ++ back, activeClass ∉ Fragment.classes f

/-- A piece that is not active may stand in front. -/
theorem Singles.behind {m : ViewNode} {f : Fragment} {pieces rest : List (Piece × String)}
    (hpainted : painted pieces = f :: painted rest)
    (hwritten : written true (pieces.map Prod.fst) = f.2 :: written true (rest.map Prod.fst))
    (hf : activeClass ∉ f.classes) (h : Singles rest m) : Singles pieces m := by
  obtain ⟨front, style, back, hrest, htext, hothers⟩ := h
  refine ⟨f :: front, style, back, by rw [hpainted, hrest]; rfl, ?_, List.forall_mem_cons.2 ⟨hf, hothers⟩⟩
  rw [hwritten, String.join_cons, htext, textOf_cons]
  simp only [String.append_assoc]

/-- An active node in front is the single one. -/
theorem singles_of_active {n m : ViewNode} {style : String} {rest : List (Piece × String)} (hactive : n.isActive = true)
    (hone : (shownIn ((.node n, style) :: rest)).filter isActive = [m]) (h : ∀ p ∈ rest, activeClass ∉ Text.words p.2) :
    Singles ((.node n, style) :: rest) m := by
  have hshown : shownIn ((.node n, style) :: rest) = n :: (n.shown.tail ++ shownIn rest) := by
    obtain ⟨i, kind, text, active, children⟩ := n
    rw [shownIn, List.flatMap_cons, Piece.shown, shown_node]
    rfl
  rw [hshown, List.filter_cons_of_pos hactive, List.cons.injEq, List.filter_append, List.append_eq_nil_iff] at hone
  obtain ⟨rfl, hinside, houtside⟩ := hone
  refine ⟨[], style, painted rest, painted_append [_] rest, ?_, ?_⟩
  · have hrest : written true (rest.map Prod.fst) = written false (rest.map Prod.fst) := by
      apply written_of_none_active
      rw [List.flatMap_map]
      exact houtside
    have hself : String.join (written true [.node n]) = ">>" ++ n.toText false ++ "<<" := toText_of_active hactive hinside
    rw [List.map_cons, ← List.singleton_append, written_append, String.join_append, hself, hrest, ← map_snd_painted]
    rfl
  · refine inactive_painted (fun k hk => ?_) h
    simpa using List.filter_eq_nil_iff.1 houtside k hk

/-- Where a single node that is shown is active, it is painted in a piece of its own. -/
theorem singles_of_one_active {pieces : List (Piece × String)} {m : ViewNode} (hone : (shownIn pieces).filter isActive = [m])
    (h : ∀ p ∈ pieces, activeClass ∉ Text.words p.2) : Singles pieces m := by
  fun_induction painted pieces with
  | case1 => cases hone
  | case2 s style rest ih =>
    rw [List.forall_mem_cons] at h
    exact .behind (painted_text s style rest) (written_text true s _) h.1 (ih hone h.2)
  | case3 i text active children style rest inner ih =>
    rw [List.forall_mem_cons] at h
    cases active with
    | true => exact singles_of_active rfl hone h.2
    | false =>
      have hinner : activeClass ∉ Text.words inner := inactive_inside h.1 rfl
      rw [shownIn_list i text false children style inner rest, List.filter_cons_of_neg (by simp [isActive])] at hone
      refine .behind (f := (inner, "[")) ?_ ?_ hinner (ih hone (styles_inside (P := (activeClass ∉ Text.words ·)) hinner h.2 children))
      · rw [painted_node, if_pos rfl]
      · rw [List.map_cons, written_node, if_pos rfl, List.map_append, map_fst_styled]
        rfl
  | case4 i kind text active children style rest inner hkind ih =>
    rw [List.forall_mem_cons] at h
    cases active with
    | true => exact singles_of_active rfl hone h.2
    | false =>
      have hinner : activeClass ∉ Text.words inner := inactive_inside h.1 rfl
      rw [shownIn_atom i hkind, List.filter_cons_of_neg (by simp [isActive])] at hone
      refine .behind (f := (inner, text)) ?_ ?_ hinner (ih hone h.2)
      · rw [painted_node, if_neg hkind]
      · rw [List.map_cons, written_node, if_neg hkind]
        exact congrArg (· :: _) (String.append_empty)

/-- Where one shown node of a tree is active, its fragments are the ones that are marked. -/
theorem singles_fragments {n m : ViewNode} (h : n.shown.filter isActive = [m]) : Singles [(.node n, "")] m := by
  refine singles_of_one_active ?_ ?_
  · rw [shownIn, List.flatMap_singleton]
    exact h
  · rw [List.forall_mem_singleton, Text.words]
    exact List.not_mem_nil

/-- Where a single node that is shown is active, its text stands between marks, and the rest is as in the plain text. -/
theorem toText_of_one_active {n m : ViewNode} (h : n.shown.filter isActive = [m]) :
    ∃ front back, n.toText false = front ++ m.toText false ++ back ∧
      n.toText true = front ++ (">>" ++ m.toText false ++ "<<") ++ back := by
  obtain ⟨front, style, back, hpainted, hmarked, -⟩ := singles_fragments h
  refine ⟨textOf front, textOf back, ?_, hmarked⟩
  rw [← textOf_painted n "", hpainted, textOf_append, textOf_append, textOf_painted]

end ViewNode

/-- A fragment has a text that a tree shows, a class for each list around it, and a class when a node around it is active. -/
structure Fragment.Tells (f : Fragment) (s : ViewNode.Stroke) : Prop where
  text : f.2 = s.text
  lists : f.classes.count ViewNode.listClass = s.within.countP (·.kind = ViewNode.listKind)
  active : ViewNode.activeClass ∈ f.classes ↔ ∃ n ∈ s.within, n.isActive = true

namespace ViewNode

/-- The style of a stroke has a class for each list around it, and one where a node around it is active. -/
theorem tells_styled (s : Stroke) : Fragment.Tells s.styled s :=
  ⟨rfl, count_words_styleWithin s.within, active_mem_styleWithin⟩

/-- For every tree: its `fragments` have the text of `toText false`, and each has the classes of the lists and active
nodes around its stroke. Where no shown node is active `toText true` is that text; where one is, its fragments are the
ones with the active class, and `toText true` has `>>` and `<<` around them. -/
theorem fragments_agree (n : ViewNode) :
    textOf n.fragments = n.toText false ∧
    List.Forall₂ Fragment.Tells n.fragments n.strokes ∧ (∀ s ∈ n.strokes, s.LiesIn n) ∧
    (n.shown.filter isActive = [] → n.toText true = n.toText false) ∧
    ∀ m, n.shown.filter isActive = [m] → ∃ front middle back, n.fragments = front ++ middle ++ back ∧
      textOf middle = m.toText false ∧
      n.toText false = textOf front ++ m.toText false ++ textOf back ∧
      n.toText true = textOf front ++ (">>" ++ m.toText false ++ "<<") ++ textOf back ∧
      (∀ f ∈ middle, activeClass ∈ Fragment.classes f) ∧ ∀ f ∈ front ++ back, activeClass ∉ Fragment.classes f := by
  have htext : textOf n.fragments = n.toText false := textOf_painted n ""
  refine ⟨htext, ?_, ?_, toText_of_none_active, fun m hone => ?_⟩
  · rw [fragments_eq, List.forall₂_map_left_iff, List.forall₂_same]
    exact fun s _ => tells_styled s
  · exact liesIn_strokesIn (.singleton n) rfl
  · obtain ⟨front, style, back, hpainted, hmarked, hothers⟩ := singles_fragments hone
    have hactive : m.isActive = true := (List.mem_filter.1 (hone ▸ List.mem_singleton_self m)).2
    refine ⟨front, painted [(.node m, style)], back, hpainted, textOf_painted m style, ?_, hmarked,
      active_painted_node hactive style, hothers⟩
    rw [← htext, fragments, hpainted, textOf_append, textOf_append, textOf_painted]

/-- An active list, and a list that it is in, with an atom behind it whose child does not show. -/
def activeList : ViewNode := .node 3 listKind "" true [.node 4 atomKind "forward" false [], .node 5 atomKind "10" false []]

def outerList : ViewNode :=
  .node 1 listKind "" false [.node 2 atomKind "repeat" false [], activeList, .node 6 atomKind "x" false [.node 7 atomKind "y" true []]]

/-- The inner list alone stands between marks. -/
theorem outerList_agrees : outerList.shown.filter isActive = [activeList] ∧
    ∃ front middle back, outerList.fragments = front ++ middle ++ back ∧ textOf middle = "[forward 10]" ∧
      outerList.toText true = textOf front ++ (">>" ++ "[forward 10]" ++ "<<") ++ textOf back ∧
      (∀ f ∈ middle, activeClass ∈ Fragment.classes f) ∧ ∀ f ∈ front ++ back, activeClass ∉ Fragment.classes f := by
  have hone : outerList.shown.filter isActive = [activeList] := rfl
  have htext : activeList.toText false = "[forward 10]" := by
    simp [activeList, toText_node, listKind, atomKind, opening, closing]
  obtain ⟨front, middle, back, hsplit, hmiddle, -, hmarked, hactive, hothers⟩ := (fragments_agree outerList).2.2.2.2 _ hone
  rw [htext] at hmiddle hmarked
  exact ⟨hone, front, middle, back, hsplit, hmiddle, hmarked, hactive, hothers⟩

end ViewNode

end SteppedLogo
