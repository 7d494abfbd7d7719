import RoutePolicy.Proofs.Formula.Evidence

set_option autoImplicit false

/-! # The canonical text of formulas

The text of a formula starts with a word for its operator, and no such word is the beginning of another
one (`Operator.word_prefixFree`). After the word come the texts of the operands, or the name of the leaf
up to the parenthesis behind it. So the text is read in one way only if the names of the leaves have no
closing parenthesis, whatever follows on it (`Formula.text_append_inj`): two formulas have the same text
exactly if they have the same operators at all positions and the same names at the leaves
(`Formula.text_inj`). -/

namespace RoutePolicy

/-! ## Operators -/

/-- The operator at the top of a formula, or the kind of the leaf. -/
inductive Operator where
  | top
  | bottom
  | leaf (k : Kind)
  | and
  | or
  | not
  | modal
  | existNext
  | forallNext
  | existModal
  | forallModal
  | existUntil
  | forallUntil
  | ev
  | pos
  | inv
  deriving DecidableEq

namespace Operator

/-- How the text begins, up to the first operand. -/
def word : Operator → String
  | top => "TT"
  | bottom => "FF"
  | leaf .place => "(NF "
  | leaf .transition => "(AF "
  | and => "(AND "
  | or => "(OR "
  | not => "(NOT "
  | modal => "(MODAL "
  | existNext => "(EXIST_NEXT "
  | forallNext => "(FORALL_NEXT "
  | existModal => "(EXIST_MODAL "
  | forallModal => "(FORALL_MODAL "
  | existUntil => "(EXIST_UNTIL "
  | forallUntil => "(FORALL_UNTIL "
  | ev => "(EV "
  | pos => "(POS "
  | inv => "(INV "

/-- All of them. -/
def all : List Operator :=
  [top, bottom, leaf .place, leaf .transition, and, or, not, modal, existNext, forallNext, existModal,
    forallModal, existUntil, forallUntil, ev, pos, inv]

theorem mem_all (o : Operator) : o ∈ all := by
  cases o with
  | leaf k => cases k <;> decide
  | _ => decide

theorem word_prefixFree (o o' : Operator) (h : o.word.toList <+: o'.word.toList) : o = o' := by
  have hall : ∀ o ∈ all, ∀ o' ∈ all, o.word.toList <+: o'.word.toList → o = o' := by
    decide +kernel
  exact hall o o.mem_all o' o'.mem_all h

/-- Two texts that begin with a word and are the same begin with the same word. -/
theorem word_append_inj {o o' : Operator} {l l' : List Char}
    (h : o.word.toList ++ l = o'.word.toList ++ l') : o = o' ∧ l = l' := by
  have hsame : o = o' := by
    have hpre : o.word.toList <+: o'.word.toList ++ l' := h ▸ List.prefix_append _ _
    rcases List.prefix_or_prefix_of_prefix hpre (List.prefix_append _ _) with hle | hle
    · exact word_prefixFree o o' hle
    · exact (word_prefixFree o' o hle).symm
  subst hsame
  exact ⟨rfl, List.append_cancel_left h⟩

end Operator

namespace Formula

/-- The operator at the top. -/
def operator : {k : Kind} → Formula k → Operator
  | _, top => .top
  | _, bottom => .bottom
  | k, leaf _ => .leaf k
  | _, and _ _ => .and
  | _, or _ _ => .or
  | _, not _ => .not
  | _, modal _ => .modal
  | _, existNext _ => .existNext
  | _, forallNext _ => .forallNext
  | _, existModal _ _ => .existModal
  | _, forallModal _ _ => .forallModal
  | _, existUntil _ _ => .existUntil
  | _, forallUntil _ _ => .forallUntil
  | _, ev _ => .ev
  | _, pos _ => .pos
  | _, inv _ => .inv

/-- The text after the word of the operator. -/
def operands : {k : Kind} → Formula k → String
  | _, top | _, bottom => ""
  | _, leaf p => p.name ++ ")"
  | _, not f | _, ev f | _, pos f | _, inv f => f.text ++ ")"
  | _, modal f | _, existNext f | _, forallNext f => f.text ++ ")"
  | _, and f g | _, or f g | _, existUntil f g | _, forallUntil f g =>
    f.text ++ " " ++ g.text ++ ")"
  | _, existModal f g | _, forallModal f g => f.text ++ " " ++ g.text ++ ")"

theorem text_eq {k : Kind} (f : Formula k) : f.text = f.operator.word ++ f.operands := by
  unfold text
  cases f with
  | leaf p =>
      have hword : "(" ++ leafWord k ++ " " = (Operator.leaf k).word := by cases k <;> decide
      simp only [hword, operator, operands, String.append_assoc]
  | _ => simp only [operator, operands, Operator.word, String.append_assoc, String.append_empty]

/-! ## Reading a text -/

/-- A name reaches up to the first character that it cannot have. -/
theorem name_append_inj {c : Char} {l l' r r' : List Char} (hl : c ∉ l) (hl' : c ∉ l')
    (h : l ++ c :: r = l' ++ c :: r') : l = l' ∧ r = r' := by
  rcases List.append_eq_append_iff.mp h with ⟨m, rfl, hm⟩ | ⟨m, rfl, hm⟩
  · cases m with
    | nil => exact ⟨(List.append_nil l).symm, (List.cons.inj hm).2⟩
    | cons x m =>
        obtain rfl := (List.cons.inj hm).1
        exact absurd (List.mem_append_right l List.mem_cons_self) hl'
  · cases m with
    | nil => exact ⟨List.append_nil l', (List.cons.inj hm).2.symm⟩
    | cons x m =>
        obtain rfl := (List.cons.inj hm).1
        exact absurd (List.mem_append_right l' List.mem_cons_self) hl

section

variable {P : (k : Kind) → Leaf k → Prop} {R : (k : Kind) → Leaf k → Leaf k → Prop}

/-- The formula is seen from any text that begins with its own, and so is what follows. -/
def IsReadFrom (P : (k : Kind) → Leaf k → Prop) (R : (k : Kind) → Leaf k → Leaf k → Prop)
    {k : Kind} (f : Formula k) : Prop :=
  ∀ (g : Formula k) (r r' : List Char), (∀ x ∈ g.leaves, P x.1 x.2) →
    f.text.toList ++ r = g.text.toList ++ r' → f.Alike R g ∧ r = r'

variable {j k : Kind} {f : Formula k} {g : Formula j} {r r' : List Char}

/-- The text of another formula begins with the same word, so only the operands have to be read. -/
theorem isReadFrom_of_operands (h : ∀ (g : Formula k) (r r' : List Char),
    (∀ x ∈ g.leaves, P x.1 x.2) → f.operator = g.operator →
    f.operands.toList ++ r = g.operands.toList ++ r' → f.Alike R g ∧ r = r') :
    f.IsReadFrom P R := by
  intro g r r' hleaves htext
  rw [text_eq, text_eq, String.toList_append, String.toList_append, List.append_assoc,
    List.append_assoc] at htext
  obtain ⟨hop, hoperands⟩ := Operator.word_append_inj htext
  exact h g r r' hleaves hop hoperands

theorem IsReadFrom.operand (hf : f.IsReadFrom P R) (f' : Formula k)
    (hleaves : ∀ x ∈ f'.leaves, P x.1 x.2)
    (h : (f.text ++ ")").toList ++ r = (f'.text ++ ")").toList ++ r') : f.Alike R f' ∧ r = r' := by
  simp only [String.toList_append, List.append_assoc] at h
  obtain ⟨halike, hrest⟩ := hf _ _ _ hleaves h
  exact ⟨halike, List.append_cancel_left hrest⟩

theorem IsReadFrom.operands (hf : f.IsReadFrom P R) (hg : g.IsReadFrom P R) (f' : Formula k)
    (g' : Formula j) (hleaves : ∀ x ∈ f'.leaves ++ g'.leaves, P x.1 x.2)
    (h : (f.text ++ " " ++ g.text ++ ")").toList ++ r
      = (f'.text ++ " " ++ g'.text ++ ")").toList ++ r') :
    (f.Alike R f' ∧ g.Alike R g') ∧ r = r' := by
  obtain ⟨hleaves, hleaves'⟩ := List.forall_mem_append.mp hleaves
  simp only [String.toList_append, List.append_assoc] at h
  obtain ⟨halike, hrest⟩ := hf _ _ _ hleaves h
  obtain ⟨halike', hrest⟩ := hg _ _ _ hleaves' (List.append_cancel_left hrest)
  exact ⟨⟨halike, halike'⟩, List.append_cancel_left hrest⟩

/-- **A text is read in one way.** Let the names of the leaves have no closing parenthesis, and let
leaves with the same name be related. Two formulas whose texts stand at the beginning of the same text
have the same operators at all positions and related leaves. -/
theorem text_append_inj (hP : ∀ k p, P k p → ')' ∉ p.name.toList)
    (hR : ∀ k p q, P k p → P k q → p.name = q.name → R k p q) {k : Kind} (f : Formula k)
    (hf : ∀ x ∈ f.leaves, P x.1 x.2) : f.IsReadFrom P R := by
  induction f with
  | top =>
      refine isReadFrom_of_operands fun g r r' _ hop h => ?_
      cases g with
      | top => exact ⟨.top, h⟩
      | _ => cases hop
  | bottom =>
      refine isReadFrom_of_operands fun g r r' _ hop h => ?_
      cases g with
      | bottom => exact ⟨.bottom, h⟩
      | _ => cases hop
  | leaf p =>
      refine isReadFrom_of_operands fun g r r' hg hop h => ?_
      cases g with
      | leaf q =>
          have hp := hf _ (List.mem_singleton_self _)
          have hq := hg _ (List.mem_singleton_self _)
          simp only [operands, String.toList_append, List.append_assoc] at h
          obtain ⟨hname, hrest⟩ := name_append_inj (hP _ p hp) (hP _ q hq) h
          exact ⟨.leaf (hR _ p q hp hq (String.toList_inj.mp hname)), hrest⟩
      | _ => cases hop
  | and f₁ f₂ ih₁ ih₂ =>
      obtain ⟨hf₁, hf₂⟩ := List.forall_mem_append.mp hf
      refine isReadFrom_of_operands fun g r r' hg hop h => ?_
      cases g with
      | and g₁ g₂ =>
          exact ((ih₁ hf₁).operands (ih₂ hf₂) g₁ g₂ hg h).imp_left fun h => .and h.1 h.2
      | _ => cases hop
  | or f₁ f₂ ih₁ ih₂ =>
      obtain ⟨hf₁, hf₂⟩ := List.forall_mem_append.mp hf
      refine isReadFrom_of_operands fun g r r' hg hop h => ?_
      cases g with
      | or g₁ g₂ =>
          exact ((ih₁ hf₁).operands (ih₂ hf₂) g₁ g₂ hg h).imp_left fun h => .or h.1 h.2
      | _ => cases hop
  | not f ih =>
      refine isReadFrom_of_operands fun g r r' hg hop h => ?_
      cases g with
      | not g => exact ((ih hf).operand g hg h).imp_left .not
      | _ => cases hop
  | modal f ih =>
      refine isReadFrom_of_operands fun g r r' hg hop h => ?_
      cases g with
      | modal g => exact ((ih hf).operand g hg h).imp_left .modal
      | _ => cases hop
  | existNext f ih =>
      refine isReadFrom_of_operands fun g r r' hg hop h => ?_
      cases g with
      | existNext g => exact ((ih hf).operand g hg h).imp_left .existNext
      | _ => cases hop
  | forallNext f ih =>
      refine isReadFrom_of_operands fun g r r' hg hop h => ?_
      cases g with
      | forallNext g => exact ((ih hf).operand g hg h).imp_left .forallNext
      | _ => cases hop
  | existModal f₁ f₂ ih₁ ih₂ =>
      obtain ⟨hf₁, hf₂⟩ := List.forall_mem_append.mp hf
      refine isReadFrom_of_operands fun g r r' hg hop h => ?_
      cases g with
      | existModal g₁ g₂ =>
          exact ((ih₁ hf₁).operands (ih₂ hf₂) g₁ g₂ hg h).imp_left fun h => .existModal h.1 h.2
      | _ => cases hop
  | forallModal f₁ f₂ ih₁ ih₂ =>
      obtain ⟨hf₁, hf₂⟩ := List.forall_mem_append.mp hf
      refine isReadFrom_of_operands fun g r r' hg hop h => ?_
      cases g with
      | forallModal g₁ g₂ =>
          exact ((ih₁ hf₁).operands (ih₂ hf₂) g₁ g₂ hg h).imp_left fun h => .forallModal h.1 h.2
      | _ => cases hop
  | existUntil f₁ f₂ ih₁ ih₂ =>
      obtain ⟨hf₁, hf₂⟩ := List.forall_mem_append.mp hf
      refine isReadFrom_of_operands fun g r r' hg hop h => ?_
      cases g with
      | existUntil g₁ g₂ =>
          exact ((ih₁ hf₁).operands (ih₂ hf₂) g₁ g₂ hg h).imp_left fun h => .existUntil h.1 h.2
      | _ => cases hop
  | forallUntil f₁ f₂ ih₁ ih₂ =>
      obtain ⟨hf₁, hf₂⟩ := List.forall_mem_append.mp hf
      refine isReadFrom_of_operands fun g r r' hg hop h => ?_
      cases g with
      | forallUntil g₁ g₂ =>
          exact ((ih₁ hf₁).operands (ih₂ hf₂) g₁ g₂ hg h).imp_left fun h => .forallUntil h.1 h.2
      | _ => cases hop
  | ev f ih =>
      refine isReadFrom_of_operands fun g r r' hg hop h => ?_
      cases g with
      | ev g => exact ((ih hf).operand g hg h).imp_left .ev
      | _ => cases hop
  | pos f ih =>
      refine isReadFrom_of_operands fun g r r' hg hop h => ?_
      cases g with
      | pos g => exact ((ih hf).operand g hg h).imp_left .pos
      | _ => cases hop
  | inv f ih =>
      refine isReadFrom_of_operands fun g r r' hg hop h => ?_
      cases g with
      | inv g => exact ((ih hf).operand g hg h).imp_left .inv
      | _ => cases hop

end

/-! ## Formulas with the same text -/

section

variable {R : (k : Kind) → Leaf k → Leaf k → Prop} {k : Kind} {f g : Formula k}

/-- The tests and the facts of the leaves do not show. -/
theorem Alike.text_eq (h : f.Alike R g) (hR : ∀ k p q, R k p q → p.name = q.name) :
    f.text = g.text := by
  induction h with
  | leaf h =>
      unfold text
      rw [hR _ _ _ h]
  | _ =>
      unfold text
      simp_all only

theorem Alike.eq (h : f.Alike R g) (hR : ∀ k p q, R k p q → p = q) : f = g := by
  induction h with
  | leaf h => rw [hR _ _ _ h]
  | _ => simp_all only

/-- No leaf has a closing parenthesis in its name. An opening one does no harm. -/
def PlainNames (f : Formula k) : Prop := ∀ x ∈ f.leaves, ')' ∉ x.2.name.toList

end

end Formula

/-- The leaf is about reads, writes or erasures of a resource, or about a tag. -/
inductive Leaf.OnData : {k : Kind} → Leaf k → Prop
  | reads (resource : String) : OnData (.reads resource)
  | writes (resource : String) : OnData (.writes resource)
  | erases (resource : String) : OnData (.erases resource)
  | tagged (tag : String) : OnData (.tagged tag)

/-- The name of such a leaf tells which one it is. -/
theorem Leaf.OnData.eq_of_name {k : Kind} {p q : Leaf k} (hp : p.OnData) (hq : q.OnData)
    (h : p.name = q.name) : p = q := by
  have hchars := congrArg String.toList h
  -- the part up to the colon is not the same for two kinds of leaves
  cases hp <;> cases hq <;>
    simp [Leaf.reads, Leaf.writes, Leaf.erases, Leaf.tagged] at hchars
  all_goals
    obtain rfl := String.toList_inj.mp hchars
    rfl

namespace Formula

variable {k : Kind} {f g : Formula k}

/-- All leaves are about reads, writes, erasures and tags. -/
def OnData (f : Formula k) : Prop := ∀ x ∈ f.leaves, x.2.OnData

/-- **The canonical text is uniquely readable.** Two formulas of a kind whose leaves have no closing
parenthesis in their names have the same text exactly if they have the same operators at all positions
and the same names at all leaves. If the leaves are about reads, writes, erasures and tags, then the
formulas are the same. -/
theorem text_inj (hf : f.PlainNames) (hg : g.PlainNames) :
    (f.text = g.text ↔ f.Alike (fun _ p q => p.name = q.name) g) ∧
    (f.OnData → g.OnData → (f.text = g.text ↔ f = g)) := by
  constructor
  · refine ⟨fun h => ?_, fun h => h.text_eq fun _ _ _ => id⟩
    have hread := text_append_inj (fun _ _ hp => hp) (fun _ _ _ _ _ => id) f hf
    exact (hread g [] [] hg (congrArg (·.toList ++ []) h)).1
  · intro hf' hg'
    refine ⟨fun h => ?_, fun h => h ▸ rfl⟩
    have hread : f.IsReadFrom (fun _ p => ')' ∉ p.name.toList ∧ p.OnData) fun _ p q => p = q :=
      text_append_inj (fun _ _ hp => hp.1) (fun _ _ _ hp hq => hp.2.eq_of_name hq.2) f
        fun x hx => ⟨hf x hx, hf' x hx⟩
    have hsame := hread g [] [] (fun x hx => ⟨hg x hx, hg' x hx⟩) (congrArg (·.toList ++ []) h)
    exact hsame.1.eq fun _ _ _ => id

/-- Names are not read as words: a blank in a name does not end it. -/
theorem text_inj_reads : (reads "x y").PlainNames ∧ (reads "x").PlainNames ∧
    (reads "x y").OnData ∧ (reads "x").OnData ∧ reads "x y" ≠ reads "x" ∧
    ¬(reads "x y").Alike (fun _ p q => p.name = q.name) (reads "x") := by
  have hplain : (reads "x y").PlainNames ∧ (reads "x").PlainNames := by
    constructor <;> simp [PlainNames, reads, leaves, Leaf.reads]
  have hdata (resource : String) : (reads resource).OnData := by
    intro x hx
    obtain rfl := List.mem_singleton.mp hx
    exact .reads resource
  have htext : (reads "x y").text ≠ (reads "x").text := by decide
  obtain ⟨halike, hsame⟩ := text_inj hplain.1 hplain.2
  exact ⟨hplain.1, hplain.2, hdata _, hdata _, fun h => htext ((hsame (hdata _) (hdata _)).mpr h),
    fun h => htext (halike.mpr h)⟩

/-- A closing parenthesis in a name may be read as the end of the leaf. -/
example (test : Transition → Bool) :
    let named (name : String) : TransitionFormula := .leaf (.ofTest name "" test)
    (and (named "a") (named "b) (AF c")).text = (and (named "a) (AF b") (named "c")).text := rfl

end Formula

end RoutePolicy
