import Lox.Proofs.Evaluation.Leaving
import Lox.Proofs.Evaluation.Recoded

/-!
Programs that are written in another way. A statement may be moved to another place, and what
follows a `return` may be anything: in a state whose functions are written in the other way, the
other program does what the program does.
-/

namespace Lox

open Located (moved)

variable {r : Recoding (List Statement) (List Statement)}

/-- A statement that is a `return`, not one that has a `return` within. -/
def Statement.isReturn : Statement → Bool
  | .returnFrom _ _ => true
  | _ => false

/-- A `return` that ends leaves what encloses it. -/
lemma Run.returnFrom_ends {fuel scope : Nat} {st : Statement} {c : Completion} {s t : State}
    (returns : st.isReturn = true) (run : statement fuel scope st s = .ok c t) :
    ∃ v, c = .returned v := by
  cases st with
  | returnFrom line value =>
    cases fuel with
    | zero =>
      rw [statement] at run
      cases run
    | succ fuel =>
      cases value with
      | none =>
        rw [statement] at run
        cases run
        exact ⟨_, rfl⟩
      | some x =>
        rw [statement] at run
        obtain ⟨v, u, -, run⟩ := Exec.bind_ends run
        cases run
        exact ⟨v, rfl⟩
  | _ => cases returns

namespace Recoding

mutual

/-- The second statement is the first one in the other place and with the other functions, but for
what follows a `return` in a list of statements. -/
inductive Rewrites (r : Recoding (List Statement) (List Statement)) : Statement → Statement → Prop
  | declareVar (name : Ident) (initial : Option Expression) :
    Rewrites r (.declareVar name initial) (.declareVar (moved r.place name) (moved r.place initial))
  | declareFun {name name' : Ident} {parameters parameters' : List Ident}
    {body body' : List Statement} :
    r.code ⟨name, parameters, body⟩ = ⟨name', parameters', body'⟩ →
    Rewrites r (.declareFun name parameters body) (.declareFun name' parameters' body')
  | expression (e : Expression) : Rewrites r (.expression e) (.expression (moved r.place e))
  | print (e : Expression) : Rewrites r (.print e) (.print (moved r.place e))
  | block {body body' : List Statement} :
    RewritesAll r body body' → Rewrites r (.block body) (.block body')
  | branch (e : Expression) {success success' : Statement} {failure failure' : Option Statement} :
    Rewrites r success success' → RewritesMaybe r failure failure' →
    Rewrites r (.branch e success failure) (.branch (moved r.place e) success' failure')
  | whileLoop (e : Expression) {body body' : Statement} :
    Rewrites r body body' → Rewrites r (.whileLoop e body) (.whileLoop (moved r.place e) body')
  | returnFrom (line : Nat) (value : Option Expression) :
    Rewrites r (.returnFrom line value)
      (.returnFrom (r.place.line line) (moved r.place value))
  | stringLoop (name : Ident) (e : Expression) {body body' : Statement} :
    Rewrites r body body' →
    Rewrites r (.stringLoop name e body)
      (.stringLoop (moved r.place name) (moved r.place e) body')

/-- The same where there may be no statement. -/
inductive RewritesMaybe (r : Recoding (List Statement) (List Statement)) :
    Option Statement → Option Statement → Prop
  | none : RewritesMaybe r none none
  | some {st st' : Statement} : Rewrites r st st' → RewritesMaybe r (some st) (some st')

/-- The same for statements one after the other. After a `return` there may be any others. -/
inductive RewritesAll (r : Recoding (List Statement) (List Statement)) :
    List Statement → List Statement → Prop
  | nil : RewritesAll r [] []
  | cons {st st' : Statement} {ss ss' : List Statement} :
    Rewrites r st st' → RewritesAll r ss ss' → RewritesAll r (st :: ss) (st' :: ss')
  | returned {st st' : Statement} (ss ss' : List Statement) :
    st.isReturn = true → Rewrites r st st' → RewritesAll r (st :: ss) (st' :: ss')

end

lemma recodes_evaluate (scope line : Nat) (a : Atom) :
    r.Recodes (a.evaluate scope line)
      ((moved r.place a).evaluate scope (r.place.line line)) := by
  cases a with
  | identifier name => exact recodes_lookup scope name.name line
  | _ => exact recodes_pure _

/-- With so much fuel, what is written in the other way does the same. -/
structure RecodesWithin (r : Recoding (List Statement) (List Statement)) (fuel : Nat) : Prop where
  node (nodes : Array Node) (scope : Nat) (i : NodeRef) :
    r.Recodes (Run.node fuel nodes scope i) (Run.node fuel (nodes.map (moved r.place)) scope i)
  operands (nodes : Array Node) (scope : Nat) (refs : List NodeRef) :
    r.Recodes (Run.operands fuel nodes scope refs)
      (Run.operands fuel (nodes.map (moved r.place)) scope refs)
  call (f : Value) (vs : List Value) (line : Nat) :
    r.Recodes (Run.call fuel f vs line) (Run.call fuel f vs (r.place.line line))
  statement (scope : Nat) {st st' : Statement} : r.Rewrites st st' →
    r.Recodes (Run.statement fuel scope st) (Run.statement fuel scope st')
  statements (scope : Nat) {ss ss' : List Statement} : r.RewritesAll ss ss' →
    r.Recodes (Run.statements fuel scope ss) (Run.statements fuel scope ss')
  whileLoop (scope : Nat) (e : Expression) {st st' : Statement} : r.Rewrites st st' →
    r.Recodes (Run.whileLoop fuel scope e st) (Run.whileLoop fuel scope (moved r.place e) st')
  characters (scope : Nat) (name : String) {st st' : Statement} (text : List Char) :
    r.Rewrites st st' → r.Recodes (Run.characters fuel scope name st text)
      (Run.characters fuel scope name st' text)

namespace RecodesWithin

lemma zero : RecodesWithin r 0 where
  node nodes scope i := by
    rw [Run.node, Run.node]
    exact recodes_throw _
  operands nodes scope refs := by
    cases refs with
    | nil =>
      rw [Run.operands, Run.operands]
      exact recodes_pure _
    | cons ref refs =>
      rw [Run.operands, Run.operands]
      exact recodes_throw _
  call f vs line := by
    rw [Run.call, Run.call]
    exact recodes_throw _
  statement scope {_ _} _ := by
    rw [Run.statement, Run.statement]
    exact recodes_throw _
  statements scope {_ _} rewrites := by
    cases rewrites with
    | nil =>
      rw [Run.statements]
      exact recodes_pure _
    | cons | returned =>
      rw [Run.statements, Run.statements]
      exact recodes_throw _
  whileLoop scope e {_ _} _ := by
    rw [Run.whileLoop, Run.whileLoop]
    exact recodes_throw _
  characters scope name {_ _} text _ := by
    cases text with
    | nil =>
      rw [Run.characters, Run.characters]
      exact recodes_pure _
    | cons c text =>
      rw [Run.characters, Run.characters]
      exact recodes_throw _

variable {fuel : Nat} (h : RecodesWithin r fuel)
include h

lemma node_succ (nodes : Array Node) (scope : Nat) (i : NodeRef) :
    r.Recodes (Run.node (fuel + 1) nodes scope i)
      (Run.node (fuel + 1) (nodes.map (moved r.place)) scope i) := by
  have found' : (nodes.map (moved r.place))[i]? = nodes[i]?.map (moved r.place) :=
    Array.getElem?_map
  cases found : nodes[i]? with
  | none =>
    rw [found] at found'
    simp only [Run.node, found, found', Option.map_none]
    exact recodes_throw _
  | some node =>
    rw [found] at found'
    simp only [Run.node, found, found', Option.map_some]
    cases node with
    | atom atom line => exact recodes_evaluate scope line atom
    | group inner => exact h.node nodes scope inner
    | unary op rhs line => exact (h.node nodes scope rhs).bind fun v => recodes_ofExcept line _
    | binary op lhs rhs line =>
      exact (h.node nodes scope lhs).bind fun v => (h.node nodes scope rhs).bind fun w =>
        recodes_ofExcept line _
    | assign target rhs =>
      exact (h.node nodes scope rhs).bind fun v =>
        (recodes_assign scope target.name v target.line).bind fun _ => recodes_pure v
    | logical op lhs rhs line =>
      refine (h.node nodes scope lhs).bind fun v => ?_
      split
      · exact recodes_pure v
      · exact h.node nodes scope rhs
    | call callee arguments line =>
      exact (h.node nodes scope callee).bind fun f =>
        (h.operands nodes scope arguments).bind fun vs => h.call f vs line
    | read line => exact recodes_read
    | rand line => exact recodes_rand
    | floor argument line =>
      exact (h.node nodes scope argument).bind fun v => recodes_native _ _ line
    | substring subject start stop line =>
      exact (h.node nodes scope subject).bind fun v => (h.node nodes scope start).bind fun a =>
        (h.node nodes scope stop).bind fun b => recodes_native _ _ line
    | value v line => exact recodes_pure v

lemma operands_succ (nodes : Array Node) (scope : Nat) (refs : List NodeRef) :
    r.Recodes (Run.operands (fuel + 1) nodes scope refs)
      (Run.operands (fuel + 1) (nodes.map (moved r.place)) scope refs) := by
  cases refs with
  | nil =>
    rw [Run.operands, Run.operands]
    exact recodes_pure _
  | cons ref refs =>
    simp only [Run.operands]
    exact (h.node nodes scope ref).bind fun v => (h.operands nodes scope refs).bind fun vs =>
      recodes_pure _

lemma call_succ (bodies : ∀ c, r.RewritesAll c.body (r.code c).body) (f : Value)
    (vs : List Value) (line : Nat) :
    r.Recodes (Run.call (fuel + 1) f vs line)
      (Run.call (fuel + 1) f vs (r.place.line line)) := by
  cases f with
  | native f =>
    simp only [Run.call]
    exact recodes_native f.native vs line
  | function f =>
    simp only [Run.call]
    refine recodes_get fun m => ?_
    rw [r.machine_codes m]
    cases m.codes[f.number]? with
    | none => exact recodes_throw _
    | some code =>
      exact (recodes_enter code f.scope vs line).bind fun scope =>
        (h.statements scope (bodies code)).nested.bind fun completion => recodes_pure _
  | _ =>
    simp only [Run.call]
    exact recodes_fault line _

lemma statement_succ (scope : Nat) {st st' : Statement} (rewrites : r.Rewrites st st') :
    r.Recodes (Run.statement (fuel + 1) scope st) (Run.statement (fuel + 1) scope st') := by
  have value (e : Expression) : r.Recodes (Run.node fuel e.nodes scope e.root)
      (Run.node fuel (moved r.place e).nodes scope (moved r.place e).root) :=
    h.node e.nodes scope e.root
  cases rewrites with
  | declareVar name initial =>
    cases initial with
    | none =>
      simp only [moved_none, Run.statement]
      exact (recodes_declare scope name.name .nil).bind fun _ => recodes_pure _
    | some e =>
      simp only [moved_some, Run.statement]
      exact (value e).bind fun v => (recodes_declare scope name.name v).bind fun _ =>
        recodes_pure _
  | @declareFun name name' parameters parameters' body body' recoded =>
    have same : name'.name = name.name := by
      simpa only [recoded] using r.name ⟨name, parameters, body⟩
    simp only [Run.statement, ← recoded, same]
    exact (recodes_makeFunction ⟨name, parameters, body⟩ scope).bind fun f =>
      (recodes_declare scope name.name f).bind fun _ => recodes_pure _
  | expression e =>
    simp only [Run.statement]
    exact (value e).bind fun _ => recodes_pure _
  | print e =>
    simp only [Run.statement]
    exact (value e).bind fun v => (recodes_print v.text).bind fun _ => recodes_pure _
  | block body =>
    simp only [Run.statement]
    exact (recodes_openScope scope []).bind fun inner => h.statements inner body
  | branch e success failure =>
    cases failure with
    | none =>
      simp only [Run.statement]
      refine (value e).bind fun v => ?_
      split
      · exact h.statement scope success
      · exact recodes_pure _
    | some failure =>
      simp only [Run.statement]
      refine (value e).bind fun v => ?_
      split
      · exact h.statement scope success
      · exact h.statement scope failure
  | whileLoop e body =>
    simp only [Run.statement]
    exact h.whileLoop scope e body
  | returnFrom line e =>
    cases e with
    | none =>
      simp only [moved_none, Run.statement]
      exact recodes_pure _
    | some e =>
      simp only [moved_some, Run.statement]
      exact (value e).bind fun v => recodes_pure _
  | stringLoop name e body =>
    simp only [Run.statement]
    refine (value e).bind fun v => ?_
    cases v with
    | string text => exact h.characters scope name.name text.toList body
    | _ => exact recodes_fault name.line _

lemma statements_succ (scope : Nat) {ss ss' : List Statement} (rewrites : r.RewritesAll ss ss') :
    r.Recodes (Run.statements (fuel + 1) scope ss) (Run.statements (fuel + 1) scope ss') := by
  cases rewrites with
  | nil =>
    rw [Run.statements]
    exact recodes_pure _
  | cons first others =>
    simp only [Run.statements]
    refine (h.statement scope first).bind fun completion => ?_
    cases completion with
    | normal => exact h.statements scope others
    | returned v => exact recodes_pure _
  | returned ss ss' returns first =>
    simp only [Run.statements]
    refine (h.statement scope first).bind_ok fun completion s t run => ?_
    obtain ⟨v, rfl⟩ := Run.returnFrom_ends returns run
    exact recodes_pure _ t

lemma whileLoop_succ (scope : Nat) (e : Expression) {st st' : Statement}
    (body : r.Rewrites st st') :
    r.Recodes (Run.whileLoop (fuel + 1) scope e st)
      (Run.whileLoop (fuel + 1) scope (moved r.place e) st') := by
  simp only [Run.whileLoop]
  refine (h.node e.nodes scope e.root).bind fun v => ?_
  split
  · refine (h.statement scope body).bind fun completion => ?_
    cases completion with
    | normal => exact h.whileLoop scope e body
    | returned v => exact recodes_pure _
  · exact recodes_pure _

lemma characters_succ (scope : Nat) (name : String) {st st' : Statement} (text : List Char)
    (body : r.Rewrites st st') :
    r.Recodes (Run.characters (fuel + 1) scope name st text)
      (Run.characters (fuel + 1) scope name st' text) := by
  cases text with
  | nil =>
    rw [Run.characters, Run.characters]
    exact recodes_pure _
  | cons c text =>
    simp only [Run.characters]
    refine (recodes_declare scope name _).bind fun _ => ?_
    refine (h.statement scope body).bind fun completion => ?_
    cases completion with
    | normal => exact h.characters scope name text body
    | returned v => exact recodes_pure _

lemma succ (bodies : ∀ c, r.RewritesAll c.body (r.code c).body) : RecodesWithin r (fuel + 1) where
  node := h.node_succ
  operands := h.operands_succ
  call := h.call_succ bodies
  statement := h.statement_succ
  statements := h.statements_succ
  whileLoop := h.whileLoop_succ
  characters := h.characters_succ

end RecodesWithin

lemma recodesWithin (bodies : ∀ c, r.RewritesAll c.body (r.code c).body) :
    ∀ fuel, RecodesWithin r fuel
  | 0 => .zero
  | fuel + 1 => (recodesWithin bodies fuel).succ bodies

/-- A program that is written in another way does the same, if all functions are written so. -/
theorem recodes_program (bodies : ∀ c, r.RewritesAll c.body (r.code c).body) (fuel : Nat)
    {ss ss' : List Statement} (rewrites : r.RewritesAll ss ss') :
    r.Recodes (Run.program fuel ss) (Run.program fuel ss') := by
  refine ((recodesWithin bodies fuel).statements globalScope rewrites).bind fun completion => ?_
  cases completion with
  | normal => exact recodes_pure ()
  | returned v => exact recodes_throw _

end Recoding

end Lox
