import Lox.Proofs.Derivation.Sound

/-!
What recursive descent reads without a mistake is derived by the grammar of expressions.
-/

namespace Lox

open Reading Reader

lemma Level.operator_ne_eof {k : Level} {kind : TokenKind} {op : Infix}
    (h : k.operator? kind = some op) : kind ≠ .eof := by
  intro he
  rw [he] at h
  cases k <;> cases h

/-- Arguments between parentheses, after `count` others. -/
def DerivesArguments (count : Nat) (ts : List Token) (terms : List Term) : Prop :=
  ∃ parts : List (List Token × Term),
    (∀ part ∈ parts, DerivesTerm .assignment part.1 part.2) ∧
      Separated (parts.map Prod.fst) ts ∧ count + parts.length ≤ arityLimit ∧
      terms = parts.map Prod.snd

lemma DerivesArguments.one {count : Nat} {ts : List Token} {t : Term} (hc : count < arityLimit)
    (h : DerivesTerm .assignment ts t) : DerivesArguments count ts [t] :=
  ⟨[(ts, t)], by simpa using h, .one, hc, rfl⟩

lemma Separated.cons {ts us : List Token} {parts : List (List Token)} {comma : Token}
    (hc : comma.kind = .comma) (hp : parts ≠ []) (h : Separated parts us) :
    Separated (ts :: parts) (ts ++ comma :: us) := by
  cases parts with
  | nil => exact absurd rfl hp
  | cons part parts => exact .more hc h

lemma DerivesArguments.more {count : Nat} {ts us : List Token} {t : Term} {terms : List Term}
    {comma : Token} (hc : comma.kind = .comma) (h : DerivesTerm .assignment ts t)
    (hn : terms ≠ []) (k : DerivesArguments (count + 1) us terms) :
    DerivesArguments count (ts ++ comma :: us) (t :: terms) := by
  obtain ⟨parts, derived, separated, few, rfl⟩ := k
  refine ⟨(ts, t) :: parts, ?_, .cons hc (by simpa using hn) separated, ?_, rfl⟩
  · simpa using ⟨h, fun a b hab => derived (a, b) hab⟩
  · simp only [List.length_cons]
    omega

namespace Descent

/-- At a depth, recursive descent derives what it reads. -/
structure Derives (d : Nat) : Prop where
  assignment : ∀ s, Sound (fun ts _ t => DerivesTerm .assignment ts t) (assignment d) s
  level : ∀ k s, Sound (fun ts _ t => DerivesTerm (.level k) ts t) (level d k) s
  levelRest : ∀ k lhs s, Sound (fun us _ t => ∀ ts, DerivesTerm (.level k) ts lhs →
    DerivesTerm (.level k) (ts ++ us) t) (levelRest d k lhs) s
  tighter : ∀ k s, Sound (fun ts _ t => DerivesTerm k.operand ts t) (tighter d k) s
  unary : ∀ s, Sound (fun ts _ t => DerivesTerm .unary ts t) (unary d) s
  call : ∀ s, Sound (fun ts _ t => DerivesTerm .call ts t) (call d) s
  callRest : ∀ callee s, Sound (fun us _ t => ∀ ts, DerivesTerm .call ts callee →
    DerivesTerm .call (ts ++ us) t) (callRest d callee) s
  argumentList : ∀ s, Sound (fun ts _ terms => DerivesArguments 0 ts terms) (argumentList d) s
  arguments : ∀ count s, Sound (fun ts _ terms => terms ≠ [] ∧ DerivesArguments count ts terms)
    (arguments d count) s
  primary : ∀ s, Sound (fun ts _ t => DerivesTerm .primary ts t) (primary d) s

namespace Derives

variable {d : Nat} (h : Derives d)
include h

lemma assignment_succ (s : Reading) :
    Sound (fun ts _ t => DerivesTerm .assignment ts t) (Descent.assignment (d + 1)) s := by
  rw [Descent.assignment]
  refine (h.level .or s).bind fun target t _ => ?_
  refine .current (.accept (by decide) (fun seen => ?_) fun _ => ?_)
  · simp only [if_true]
    refine (h.assignment _).bind fun value u _ => ?_
    cases named : target.target? with
    | some name =>
      refine .pure fun us hvalue ts htarget => ?_
      simpa using DerivesTerm.assign htarget named seen hvalue
    | none => exact (Sound.record _).bind fun _ _ _ => .pure fun _ => False.elim
  · refine .pure fun ts htarget => ?_
    simpa using DerivesTerm.loosest htarget

lemma level_succ (k : Level) (s : Reading) :
    Sound (fun ts _ t => DerivesTerm (.level k) ts t) (Descent.level (d + 1) k) s := by
  rw [Descent.level]
  refine (h.tighter k s).bind fun first t _ => ?_
  exact (h.levelRest k first t).mono fun us _ _ rest ts hfirst => rest ts (.operand hfirst)

lemma levelRest_succ (k : Level) (lhs : Term) (s : Reading) :
    Sound (fun us _ t => ∀ ts, DerivesTerm (.level k) ts lhs → DerivesTerm (.level k) (ts ++ us) t)
      (Descent.levelRest (d + 1) k lhs) s := by
  rw [Descent.levelRest]
  refine .current ?_
  cases hop : k.operator? s.current.kind with
  | some op =>
    refine .advance (Level.operator_ne_eof hop) ((h.tighter k _).bind fun rhs u _ => ?_)
    refine (h.levelRest k _ u).mono fun vs _ t rest us hrhs ts hlhs => ?_
    simpa using rest _ (.join hlhs hop hrhs)
  | none => exact .pure fun ts hlhs => by simpa using hlhs

lemma tighter_succ (k : Level) (s : Reading) :
    Sound (fun ts _ t => DerivesTerm k.operand ts t) (Descent.tighter (d + 1) k) s := by
  rw [Descent.tighter, Level.operand]
  cases k.next? with
  | some next => exact h.level next s
  | none => exact h.unary s

lemma unary_succ (s : Reading) :
    Sound (fun ts _ t => DerivesTerm .unary ts t) (Descent.unary (d + 1)) s := by
  rw [Descent.unary]
  refine .current ?_
  split
  case h_1 hk =>
    refine .advance (by simp [hk]) ((h.unary _).bind fun rhs t _ => .pure fun ts hrhs => ?_)
    simpa using DerivesTerm.unary (by rw [hk]; rfl) hrhs
  case h_2 hk =>
    refine .advance (by simp [hk]) ((h.unary _).bind fun rhs t _ => .pure fun ts hrhs => ?_)
    simpa using DerivesTerm.unary (by rw [hk]; rfl) hrhs
  case h_3 => exact (h.call s).mono fun ts _ t => .called

lemma call_succ (s : Reading) :
    Sound (fun ts _ t => DerivesTerm .call ts t) (Descent.call (d + 1)) s := by
  rw [Descent.call]
  refine (h.primary s).bind fun callee t _ => ?_
  exact (h.callRest callee t).mono fun us _ t rest ts hcallee => rest ts (.primary hcallee)

lemma callRest_succ (callee : Term) (s : Reading) :
    Sound (fun us _ t => ∀ ts, DerivesTerm .call ts callee → DerivesTerm .call (ts ++ us) t)
      (Descent.callRest (d + 1) callee) s := by
  rw [Descent.callRest]
  refine .accept (by decide) (fun opening => ?_) fun _ => ?_
  · simp only [if_true]
    refine (h.argumentList _).bind fun terms t _ => .require fun closing => ?_
    refine (h.callRest _ _).mono ?_
    rintro vs - term rest us ⟨parts, derived, separated, few, rfl⟩ ts hcallee
    have called := DerivesTerm.call hcallee opening derived separated (by simpa using few) closing
    simpa using rest _ called
  · exact .pure fun ts hcallee => by simpa using hcallee

lemma argumentList_succ (s : Reading) :
    Sound (fun ts _ terms => DerivesArguments 0 ts terms) (Descent.argumentList (d + 1)) s := by
  rw [Descent.argumentList]
  refine .sees ?_
  split
  · exact .pure ⟨[], by simp, .none, Nat.zero_le _, rfl⟩
  · exact (h.arguments 0 s).mono fun ts _ terms derived => derived.2

lemma arguments_succ (count : Nat) (s : Reading) :
    Sound (fun ts _ terms => terms ≠ [] ∧ DerivesArguments count ts terms)
      (Descent.arguments (d + 1) count) s := by
  rw [Descent.arguments]
  refine (Sound.limit count _).bind fun _ t _ => (h.assignment t).bind fun argument u _ => ?_
  refine .accept (by decide) (fun comma => ?_) fun _ => ?_
  · simp only [if_true]
    refine (h.arguments (count + 1) _).bind fun others v _ => .pure ?_
    rintro us ⟨some, hothers⟩ ts hargument _ ⟨rfl, _⟩
    refine ⟨List.cons_ne_nil _ _, ?_⟩
    simpa using hothers.more comma hargument some
  · refine .pure ?_
    rintro ts hargument _ ⟨rfl, few⟩
    refine ⟨List.cons_ne_nil _ _, ?_⟩
    simpa using DerivesArguments.one few hargument

lemma primary_succ (s : Reading) :
    Sound (fun ts _ t => DerivesTerm .primary ts t) (Descent.primary (d + 1)) s := by
  rw [Descent.primary]
  refine .current ?_
  split
  case h_9 hk =>
    refine .advance (by simp [hk]) (.require fun opening => ?_)
    refine (h.assignment _).bind fun argument t _ => .require fun closing => .pure ?_
    exact fun ts hargument => .floor hk opening hargument closing
  case h_10 hk =>
    refine .advance (by simp [hk]) (.require fun opening => ?_)
    refine (h.assignment _).bind fun subject t _ => .require fun comma => ?_
    refine (h.assignment _).bind fun start u _ => .require fun comma' => ?_
    refine (h.assignment _).bind fun stop v _ => .require fun closing => .pure ?_
    intro vs hstop us hstart ts hsubject
    simpa using DerivesTerm.substring hk opening hsubject comma hstart comma' hstop closing
  case h_11 hk =>
    refine .advance (by simp [hk]) ((h.assignment _).bind fun inner t _ => ?_)
    exact .require fun closing => .pure fun ts hinner => .group hk hinner closing
  case h_12 => exact .fail _
  case h_7 hk => exact .advance (by simp [hk]) (.pure (.read hk))
  case h_8 hk => exact .advance (by simp [hk]) (.pure (.rand hk))
  case h_1 hk hl => exact .advance (by simp [hk]) (.pure (.atom (by simp [Token.atom?, hk, hl])))
  case h_2 hk hl => exact .advance (by simp [hk]) (.pure (.atom (by simp [Token.atom?, hk, hl])))
  -- the other operands are single tokens whose kind says everything
  all_goals
    next hk =>
    exact .advance (by simp [hk]) (.pure (.atom (by simp [Token.atom?, hk])))

end Derives

lemma derives (d : Nat) : Derives d := by
  induction d with
  | zero => exact ⟨fun _ => .stuck, fun _ _ => .stuck, fun _ _ _ => .stuck, fun _ _ => .stuck,
      fun _ => .stuck, fun _ => .stuck, fun _ _ => .stuck, fun _ => .stuck, fun _ _ => .stuck,
      fun _ => .stuck⟩
  | succ d h => exact ⟨h.assignment_succ, h.level_succ, h.levelRest_succ, h.tighter_succ,
      h.unary_succ, h.call_succ, h.callRest_succ, h.argumentList_succ, h.arguments_succ,
      h.primary_succ⟩

end Descent

end Lox
