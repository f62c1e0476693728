import Lox.Proofs.Derivation.Statement

/-!
What the grammar derives holds no values that stand for themselves, and returns only from within
functions.
-/

namespace Lox

namespace Term

mutual

/-- No value was put into the term. -/
def Plain : Term → Prop
  | .atom _ _ | .read _ | .rand _ => True
  | .group inner => inner.Plain
  | .unary _ rhs _ | .assign _ rhs => rhs.Plain
  | .binary _ lhs rhs _ | .logical _ lhs rhs _ => lhs.Plain ∧ rhs.Plain
  | .call callee arguments _ => callee.Plain ∧ AllPlain arguments
  | .floor argument _ => argument.Plain
  | .substring subject start stop _ => subject.Plain ∧ start.Plain ∧ stop.Plain
  | .value _ _ => False

def AllPlain : List Term → Prop
  | [] => True
  | t :: ts => t.Plain ∧ AllPlain ts

end

lemma allPlain_map {parts : List (List Token × Term)} (h : ∀ part ∈ parts, part.2.Plain) :
    AllPlain (parts.map Prod.snd) := by
  induction parts with
  | nil => simp only [List.map_nil, AllPlain]
  | cons part parts ih =>
    simp only [List.map_cons, AllPlain]
    exact ⟨h part List.mem_cons_self, ih fun t ht => h t (List.mem_cons_of_mem _ ht)⟩

/-- Where there is a term, it is plain. -/
def MaybePlain (t : Option Term) : Prop :=
  ∀ u, t = some u → u.Plain

end Term

open Term

namespace Phrase

mutual

/-- A phrase that returns only if a function encloses it, and whose terms are plain. -/
def Fit (inside : Bool) : Phrase → Prop
  | .declareVar _ initial => MaybePlain initial
  | .declareFun _ _ body => AllFit true body
  | .expression t | .print t => t.Plain
  | .block body => AllFit inside body
  | .branch condition success failure =>
    condition.Plain ∧ success.Fit inside ∧ MaybeFit inside failure
  | .whileLoop condition body | .stringLoop _ condition body => condition.Plain ∧ body.Fit inside
  | .returnFrom _ result => inside = true ∧ MaybePlain result

/-- The same where there may be no phrase. -/
def MaybeFit (inside : Bool) : Option Phrase → Prop
  | none => True
  | some p => p.Fit inside

def AllFit (inside : Bool) : List Phrase → Prop
  | [] => True
  | p :: ps => p.Fit inside ∧ AllFit inside ps

end

variable {inside : Bool}

lemma allFit_map {parts : List (List Token × Phrase)} (h : ∀ part ∈ parts, part.2.Fit inside) :
    AllFit inside (parts.map Prod.snd) := by
  induction parts with
  | nil => simp only [List.map_nil, AllFit]
  | cons part parts ih =>
    simp only [List.map_cons, AllFit]
    exact ⟨h part List.mem_cons_self, ih fun p hp => h p (List.mem_cons_of_mem _ hp)⟩

end Phrase

open Phrase

lemma Infix.join_plain {lhs rhs : Term} (hl : lhs.Plain) (hr : rhs.Plain) (line : Nat)
    (op : Infix) : (op.join lhs rhs line).Plain := by
  cases op <;> simp only [Infix.join, Plain] <;> exact ⟨hl, hr⟩

lemma DerivesTerm.plain {c : Category} {ts : List Token} {t : Term} (h : DerivesTerm c ts t) :
    t.Plain := by
  induction h with
  | loosest _ ih | operand _ ih | called _ ih | primary _ ih => exact ih
  | assign _ _ _ _ _ ih | unary _ _ ih | floor _ _ _ _ ih | group _ _ _ ih =>
    simp only [Plain]
    exact ih
  | join _ _ _ hl hr => exact Infix.join_plain hl hr _ _
  | call _ _ _ _ _ _ hcallee harguments =>
    simp only [Plain]
    exact ⟨hcallee, allPlain_map harguments⟩
  | atom _ | read _ | rand _ => simp only [Plain]
  | substring _ _ _ _ _ _ _ _ hsubject hstart hstop =>
    simp only [Plain]
    exact ⟨hsubject, hstart, hstop⟩

lemma MaybeDerivesTerm.plain {ts : List Token} {t : Option Term} (h : MaybeDerivesTerm ts t) :
    MaybePlain t := by
  cases h with
  | none => exact nofun
  | some h =>
    rintro u ⟨⟩
    exact h.plain

namespace DerivesPhrase

lemma declareVar_fit {ts : List Token} {p : Phrase} (h : DerivesVariable ts p) (inside : Bool) :
    p.Fit inside := by
  cases h with
  | plain _ _ =>
    simp only [Fit]
    exact nofun
  | initial _ _ h _ =>
    simp only [Fit]
    rintro u ⟨⟩
    exact h.plain

lemma initializer_fit {ts : List Token} {p : Option Phrase} (h : DerivesInitializer ts p)
    (inside : Bool) : ∀ q, p = some q → q.Fit inside := by
  cases h with
  | none _ => exact nofun
  | declareVar _ h =>
    rintro q ⟨⟩
    exact declareVar_fit h inside
  | expression h _ =>
    rintro q ⟨⟩
    simp only [Fit]
    exact h.plain

lemma forLoop_fit {inside : Bool} {line : Nat} {initializer : Option Phrase}
    {condition increment : Option Term} {body : Phrase}
    (hi : ∀ q, initializer = some q → q.Fit inside) (hc : MaybePlain condition)
    (hn : MaybePlain increment) (hb : body.Fit inside) :
    (Phrase.forLoop line initializer condition increment body).Fit inside := by
  have always : (condition.getD (.atom (.bool true) line)).Plain := by
    cases condition with
    | none => simp only [Option.getD_none, Plain]
    | some c => exact hc c rfl
  rcases increment with - | n <;> rcases initializer with - | i <;>
    simp only [Phrase.forLoop, Fit, AllFit]
  · exact ⟨always, hb⟩
  · exact ⟨hi i rfl, ⟨always, hb⟩, trivial⟩
  · exact ⟨always, hb, hn n rfl, trivial⟩
  · exact ⟨hi i rfl, ⟨always, hb, hn n rfl, trivial⟩, trivial⟩

end DerivesPhrase

/-- Whether a function encloses what has the form. -/
def Form.inside : Form → Bool
  | .declaration inside | .statement inside _ => inside

lemma DerivesPhrase.fit {form : Form} {ts : List Token} {p : Phrase} (h : DerivesPhrase form ts p) :
    p.Fit form.inside := by
  induction h with
  | declareVar _ h => exact declareVar_fit h _
  | declareFun _ _ _ _ _ _ _ _ _ _ ih =>
    simp only [Fit]
    exact allFit_map ih
  | statement _ ih => exact ih
  | expression h _ | print _ h _ =>
    simp only [Fit]
    exact h.plain
  | returnFrom _ h _ =>
    simp only [Fit]
    exact ⟨rfl, h.plain⟩
  | block _ _ _ ih =>
    simp only [Fit]
    exact allFit_map ih
  | branch _ _ h _ _ ih =>
    simp only [Fit, MaybeFit]
    exact ⟨h.plain, ih, trivial⟩
  | branchElse _ _ h _ _ _ _ ih ih' =>
    simp only [Fit, MaybeFit]
    exact ⟨h.plain, ih, ih'⟩
  | whileLoop _ _ h _ _ ih | stringLoop _ _ _ _ _ h _ _ ih =>
    simp only [Fit]
    exact ⟨h.plain, ih⟩
  | forLoop _ _ hi hc _ hn _ _ ih =>
    exact forLoop_fit (initializer_fit hi _) hc.plain hn.plain ih

lemma DerivesProgram.fit {ts : List Token} {ps : List Phrase} (h : DerivesProgram ts ps) :
    AllFit false ps := by
  obtain ⟨parts, derived, -, rfl⟩ := h
  exact allFit_map fun part hp => (derived part hp).fit

end Lox
