import Mathlib.Data.List.Forall2
import RoutePolicy.Net.Dot
import RoutePolicy.Proofs.Number.Numeral

set_option autoImplicit false

/-! # The graph description of a net can be read

What stands between the quotes of a label is read up to the first quote without a backslash in front.
A written text spells another one if reading it gives that text and goes on behind it, and if it keeps
to its line (`Text.Spells`). Escaped texts do so whatever they hold (`Text.spells_escapeLabel`), and so
do the pieces of a label together. So the description has one line for each node and arc, in order, and
each label is read as it was meant, up to its own quote (`Net.dot_lines`). -/

namespace RoutePolicy

open Text

/-! ## Reading labels -/

namespace Text

theorem readLabel_cons {c : Char} (hquote : c ≠ '"') (hbackslash : c ≠ '\\') (tail : List Char) :
    readLabel (c :: tail) = (readLabel tail).map (Prod.map (c :: ·) id) := by
  rw [readLabel.eq_def]
  split <;> simp_all [Prod.map_def]

theorem readLabel_backslash (c : Char) (tail : List Char) : readLabel ('\\' :: c :: tail)
    = (readLabel tail).map (Prod.map ((if c = 'n' then '\n' else c) :: ·) id) := rfl

/-- In a label, whatever follows, the written text is read as `text`; it has no line break. -/
structure Spells (written text : List Char) : Prop where
  read : ∀ tail, readLabel (written ++ tail) = (readLabel tail).map (Prod.map (text ++ ·) id)
  line : '\n' ∉ written

namespace Spells

variable {written written' text text' : List Char}

theorem nil : Spells [] [] := ⟨fun tail => by simp [Prod.map_def], List.not_mem_nil⟩

theorem append (h : Spells written text) (h' : Spells written' text') :
    Spells (written ++ written') (text ++ text') where
  read tail := by
    rw [List.append_assoc, h.read, h'.read, Option.map_map]
    simp [Prod.map_def, Function.comp_def]
  line hmem := (List.mem_append.mp hmem).elim h.line h'.line

theorem concat {s s' t t' : String} (h : Spells s.toList t.toList)
    (h' : Spells s'.toList t'.toList) : Spells (s ++ s').toList (t ++ t').toList := by
  simpa only [String.toList_append] using h.append h'

/-- The quote behind the written text ends the label. -/
theorem readLabel_quote (h : Spells written text) (after : List Char) :
    readLabel (written ++ '"' :: after) = some (text, after) := by
  rw [h.read]
  simp [readLabel]

/-- A backslash gives the next character its meaning. -/
theorem escape {c : Char} (hc : c ≠ '\n') :
    Spells ['\\', c] [if c = 'n' then '\n' else c] where
  read := readLabel_backslash c
  line := by simp [hc.symm]

/-- A text without characters that need an escape spells itself. -/
theorem plain (hquote : '"' ∉ text) (hbackslash : '\\' ∉ text) (hbreak : '\n' ∉ text) :
    Spells text text := by
  induction text with
  | nil => exact nil
  | cons c text ih =>
      rw [List.mem_cons, not_or] at hquote hbackslash hbreak
      have hc : Spells [c] [c] :=
        ⟨readLabel_cons (Ne.symm hquote.1) (Ne.symm hbackslash.1), by simp [hbreak.1]⟩
      exact hc.append (ih hquote.2 hbackslash.2 hbreak.2)

end Spells

theorem spells_labelChar (c : Char) : Spells (labelChar c) [c] := by
  unfold labelChar
  split
  -- a quote or a backslash is read as itself, an `n` behind a backslash as a line break
  · rename_i hc
    rcases hc with rfl | rfl
    · exact .escape (by decide)
    · exact .escape (by decide)
  · rename_i hc
    split
    · rename_i hbreak
      subst hbreak
      exact .escape (by decide)
    · rename_i hbreak
      rw [not_or] at hc
      exact .plain (by simp [Ne.symm hc.1]) (by simp [Ne.symm hc.2]) (by simp [Ne.symm hbreak])

/-- **An escaped text spells the text**, whatever characters it holds. -/
theorem spells_escapeLabel (s : String) : Spells (escapeLabel s).toList s.toList := by
  rw [escapeLabel, String.toList_ofList]
  induction s.toList with
  | nil => exact .nil
  | cons c cs ih => exact (spells_labelChar c).append ih

example : readLabel ((escapeLabel "a\"b\n\\").toList ++ "\"];".toList)
    = some ("a\"b\n\\".toList, "];".toList) := by decide

/-- A numeral spells itself. -/
theorem spells_toString (n : Nat) : Spells (toString n).toList (toString n).toList := by
  have hdigits {c : Char} (hc : c ∈ (toString n).toList) : c.isDigit = true :=
    isDigit_toDigits (toList_toString n ▸ hc)
  refine .plain ?_ ?_ ?_ <;> intro hmem <;> exact absurd (hdigits hmem) (by decide)

/-- The line holds a label between double quotes, which is read as `label` up to its own quote. -/
structure Labelled (before label after line : String) : Prop where
  read : ∃ written, line = before ++ "\"" ++ written ++ "\"" ++ after ∧
    readLabel (written.toList ++ '"' :: after.toList) = some (label.toList, after.toList)
  unbroken : '\n' ∉ line.toList

theorem Spells.labelled {before written after label : String}
    (h : Spells written.toList label.toList) (hbefore : '\n' ∉ before.toList)
    (hafter : '\n' ∉ after.toList) :
    Labelled before label after (before ++ "\"" ++ written ++ "\"" ++ after) where
  read := ⟨written, rfl, h.readLabel_quote after.toList⟩
  unbroken := by simp [hbefore, hafter, h.line]

/-- Lines made one by one, each with what it is for. -/
theorem exists_lines {α : Type} {text : α → String} {IsLine : α → String → Prop}
    (htext : ∀ x, ∃ line, text x = line ++ "\n" ∧ IsLine x line)
    (hline : ∀ x line, IsLine x line → '\n' ∉ line.toList) (xs : List α) :
    ∃ lines, xs.map text = lines.map (· ++ "\n") ∧ List.Forall₂ IsLine xs lines ∧
      ∀ line ∈ lines, '\n' ∉ line.toList := by
  induction xs with
  | nil => exact ⟨[], rfl, .nil, by simp⟩
  | cons x xs ih =>
      obtain ⟨line, heq, hx⟩ := htext x
      obtain ⟨lines, hmap, hall, hunbroken⟩ := ih
      refine ⟨line :: lines, ?_, .cons hx hall, ?_⟩
      · rw [List.map_cons, heq, hmap, List.map_cons]
      · exact List.forall_mem_cons.mpr ⟨hline x line hx, hunbroken⟩

end Text

/-! ## The lines of nodes and arcs -/

theorem Node.unbroken_dotName (n : Node) : '\n' ∉ n.dotName.toList := by
  have hindex := (spells_toString n.index).line
  unfold Node.dotName
  split <;> rw [String.toList_append, List.mem_append, not_or] <;> exact ⟨by decide, hindex⟩

theorem Node.unbroken_dotStart (n : Node) :
    '\n' ∉ ("    " ++ n.dotName ++ " [label=").toList := by
  simp [n.unbroken_dotName]

namespace Place

/-- What the label of a place says. -/
def dotText (p : Place) : String :=
  p.id ++ "\nmarkers: " ++ toString p.markers ++ p.origin?.elim "" ("\ninner of " ++ ·)

/-- The line of a place, without its line break. -/
def DotLine (p : Place) (i : PlaceId) (line : String) : Prop :=
  Labelled ("    " ++ i.node.dotName ++ " [label=") p.dotText ", shape=circle];" line

theorem exists_dotLine (p : Place) (i : PlaceId) :
    ∃ line, p.dotLine i = line ++ "\n" ∧ p.DotLine i line := by
  have hbefore := i.node.unbroken_dotStart
  have hmarkers : Spells "\\nmarkers: ".toList "\nmarkers: ".toList :=
    (Spells.escape (by decide)).append (.plain (by decide) (by decide) (by decide))
  have hinner : Spells "\\ninner of ".toList "\ninner of ".toList :=
    (Spells.escape (by decide)).append (.plain (by decide) (by decide) (by decide))
  have hcount : Spells (escapeLabel p.id ++ "\\nmarkers: " ++ toString p.markers).toList
      (p.id ++ "\nmarkers: " ++ toString p.markers).toList :=
    ((spells_escapeLabel p.id).concat hmarkers).concat (spells_toString p.markers)
  unfold dotLine DotLine dotText
  cases p.origin? with
  | none =>
      have hnone : Spells "".toList "".toList := .nil
      have hlabel := hcount.concat hnone
      exact ⟨_, by simp [String.append_assoc], hlabel.labelled hbefore (by decide)⟩
  | some origin =>
      have hlabel := hcount.concat (hinner.concat (spells_escapeLabel origin))
      exact ⟨_, by simp [String.append_assoc], hlabel.labelled hbefore (by decide)⟩

end Place

namespace Transition

/-- What the label of a transition says. -/
def dotText (t : Transition) : String :=
  t.id ++ "\n" ++ t.context.elim "no context" (·.text)

/-- The line of a transition, without its line break. -/
def DotLine (t : Transition) (i : TransitionId) (line : String) : Prop :=
  Labelled ("    " ++ i.node.dotName ++ " [label=") t.dotText ", shape=box];" line

theorem exists_dotLine (t : Transition) (i : TransitionId) :
    ∃ line, t.dotLine i = line ++ "\n" ∧ t.DotLine i line := by
  have hbefore := i.node.unbroken_dotStart
  have hid : Spells (escapeLabel t.id ++ "\\n").toList (t.id ++ "\n").toList :=
    (spells_escapeLabel t.id).concat (.escape (by decide))
  unfold dotLine DotLine dotText
  cases t.context with
  | none =>
      have hnone : Spells "no context".toList "no context".toList :=
        .plain (by decide) (by decide) (by decide)
      have hlabel := hid.concat hnone
      exact ⟨_, by simp [String.append_assoc], hlabel.labelled hbefore (by decide)⟩
  | some context =>
      have hlabel := hid.concat (spells_escapeLabel context.text)
      exact ⟨_, by simp [String.append_assoc], hlabel.labelled hbefore (by decide)⟩

end Transition

/-- The line of an arc, without its line break. -/
def Arc.dotText (a : Arc) : String := "    " ++ a.source.dotName ++ " -> " ++ a.target.dotName ++ ";"

theorem Arc.dotLine_eq (a : Arc) : a.dotLine = a.dotText ++ "\n" := by
  simp [Arc.dotLine, Arc.dotText, String.append_assoc]

theorem Arc.unbroken_dotText (a : Arc) : '\n' ∉ a.dotText.toList := by
  simp [Arc.dotText, Node.unbroken_dotName]

theorem Arena.length_toPairs {ι α : Type} [Index ι] (a : Arena ι α) : a.toPairs.length = a.size := by
  simp [toPairs, toList, size]

namespace Net

/-- **The description of a net has one line for each place, transition and arc, in this order**, after
two opening lines and before a closing one. No line is broken. Each label is read up to its own quote,
and says what it should say. -/
theorem dot_lines (net : Net) :
    (∀ s rest, readLabel ((escapeLabel s).toList ++ '"' :: rest) = some (s.toList, rest)) ∧
    ∃ lines opening places transitions,
      net.dot = String.join (lines.map (· ++ "\n")) ∧
      (∀ line ∈ lines, '\n' ∉ line.toList) ∧
      lines.length = 3 + net.places.size + net.transitions.size + net.arcs.size ∧
      lines = opening :: "    rankdir=LR;" :: (places ++ transitions
        ++ net.arcs.toList.map Arc.dotText ++ ["\x7d"]) ∧
      Labelled "digraph " net.id " \x7b" opening ∧
      List.Forall₂ (fun x line => x.2.DotLine x.1 line) net.places.toPairs places ∧
      List.Forall₂ (fun x line => x.2.DotLine x.1 line) net.transitions.toPairs transitions := by
  have hopening : Labelled "digraph " net.id " \x7b"
      ("digraph " ++ "\"" ++ escapeLabel net.id ++ "\"" ++ " \x7b") :=
    (spells_escapeLabel net.id).labelled (by decide) (by decide)
  obtain ⟨places, hplaces, hplace, hunbroken⟩ := exists_lines
    (fun x : PlaceId × Place => x.2.exists_dotLine x.1) (fun _ _ h => h.unbroken) net.places.toPairs
  obtain ⟨transitions, htransitions, htransition, hunbroken'⟩ := exists_lines
    (fun x : TransitionId × Transition => x.2.exists_dotLine x.1) (fun _ _ h => h.unbroken)
    net.transitions.toPairs
  refine ⟨fun s => (spells_escapeLabel s).readLabel_quote, _, _, places, transitions, ?_, ?_, ?_, rfl,
    hopening, hplace, htransition⟩
  · have harcs : net.arcs.toList.map Arc.dotLine
        = (net.arcs.toList.map Arc.dotText).map (· ++ "\n") := by
      simp [Arc.dotLine_eq]
    rw [dot, dotLines, hplaces, htransitions, harcs]
    simp [String.append_assoc]
  · simp only [List.forall_mem_cons, List.forall_mem_append]
    refine ⟨hopening.unbroken, by decide, ⟨⟨hunbroken, hunbroken'⟩, ?_⟩, by decide, by simp⟩
    exact List.forall_mem_map.mpr fun a _ => a.unbroken_dotText
  · have hsizes : places.length = net.places.size := by
      rw [← hplace.length_eq, Arena.length_toPairs]
    have hsizes' : transitions.length = net.transitions.size := by
      rw [← htransition.length_eq, Arena.length_toPairs]
    have hsizes'' : net.arcs.toList.length = net.arcs.size := rfl
    simp only [List.length_cons, List.length_append, List.length_map, List.length_nil]
    omega

end Net

end RoutePolicy
