import Mavicona.Extract.Ruler

/-!
# The grammar of rule files

Reference: `extract/rule_parse.y`, `extract/rulenode.h`.

The parser is generated from the grammar. It shifts the tokens to a stack and reduces the symbols on
top of it by the productions, each with its action. What it accepts are the configurations, with the
rules in the order of the file.
-/

namespace Mavicona.Extract

/-! ## Tokens -/

/-- The tokens, with their values. -/
inductive Token
  | lbrace
  | rbrace
  | semicolon
  | then
  | action (a : RuleAction)
  | kind (k : RuleKind)
  | string (s : Bytes)
deriving DecidableEq

/-- The constructor of `RuleNode` that has a name, which loses its quotes. -/
def RuleNode.ofString (kind : RuleKind) (name : Bytes) (actions : List RuleAction) : RuleNode where
  nodeType := kind
  nodeName := if name.head? = some 39 ∨ name.head? = some 34 then (name.drop 1).dropLast else name
  actionList := actions

/-! ## Productions -/

/-- `stmts`, with the actions. -/
inductive Stmts : List Token → List RuleAction → Prop
  | one (a : RuleAction) : Stmts [.then, .action a, .semicolon] [a]
  | snoc {ts : List Token} {as : List RuleAction} (h : Stmts ts as) (a : RuleAction) :
      Stmts (ts ++ [.then, .action a, .semicolon]) (as ++ [a])

/-- `line`, with the rule. -/
inductive Line : List Token → RuleNode → Prop
  | unknown {ts : List Token} {as : List RuleAction} (h : Stmts ts as) :
      Line (.kind .unknown :: .lbrace :: ts ++ [.rbrace]) ⟨.unknown, [], as⟩
  | named {kind : RuleKind} (hkind : kind ≠ .unknown) (name : Bytes) {ts : List Token}
      {as : List RuleAction} (h : Stmts ts as) :
      Line (.kind kind :: .string name :: .lbrace :: ts ++ [.rbrace]) (.ofString kind name as)

/-- `lines`, and so `config`, with the rules. -/
inductive Config : List Token → List RuleNode → Prop
  | one {ts : List Token} {r : RuleNode} (h : Line ts r) : Config ts [r]
  | snoc {ts us : List Token} {rs : List RuleNode} {r : RuleNode} (h : Config ts rs)
      (hr : Line us r) : Config (ts ++ us) (rs ++ [r])

/-! ## The parser -/

/-- The symbols on the stack of the parser, with their values. -/
inductive Symbol
  | token (t : Token)
  | action (a : RuleAction)
  | stmt (a : RuleAction)
  | stmts (as : List RuleAction)
  | line (r : RuleNode)
  | lines

/-- The stack of the parser, and the vector `rules`. -/
structure Parser where
  stack : List Symbol
  rules : List RuleNode

namespace Parser

/-- Reduce by a production. -/
def reduce : Parser → Option Parser
  | ⟨.token (.action a) :: stack, rules⟩ => some ⟨.action a :: stack, rules⟩
  | ⟨.token .semicolon :: .action a :: .token .then :: stack, rules⟩ => some ⟨.stmt a :: stack, rules⟩
  | ⟨.stmt a :: .stmts as :: stack, rules⟩ => some ⟨.stmts (as ++ [a]) :: stack, rules⟩
  | ⟨.stmt a :: stack, rules⟩ => some ⟨.stmts [a] :: stack, rules⟩
  | ⟨.token .rbrace :: .stmts as :: .token .lbrace :: .token (.kind .unknown) :: stack, rules⟩ =>
    some ⟨.line ⟨.unknown, [], as⟩ :: stack, rules⟩
  | ⟨.token .rbrace :: .stmts as :: .token .lbrace :: .token (.string name) ::
      .token (.kind kind) :: stack, rules⟩ =>
    if kind = .unknown then none else some ⟨.line (.ofString kind name as) :: stack, rules⟩
  | ⟨.line r :: .lines :: stack, rules⟩ => some ⟨.lines :: stack, rules ++ [r]⟩
  | ⟨.line r :: stack, rules⟩ => some ⟨.lines :: stack, rules ++ [r]⟩
  | _ => none

/-- Reduce as long as there is a production. -/
def reduceAll : ℕ → Parser → Parser
  | 0, p => p
  | n + 1, p =>
    match p.reduce with
    | none => p
    | some p => reduceAll n p

/-- Shift a token, and reduce; there are at most two reductions after a token. -/
def shift (p : Parser) (t : Token) : Parser := reduceAll 2 ⟨.token t :: p.stack, p.rules⟩

end Parser

/-- `yyparse`: the rules that it adds to the vector; `none` if it calls `yyerror`. -/
def yyparse (ts : List Token) : Option (List RuleNode) :=
  match ts.foldl Parser.shift ⟨[], []⟩ with
  | ⟨[.lines], rules⟩ => some rules
  | _ => none

/-! ## What is accepted is a configuration -/

/-- The symbols of a stack stand for the tokens that were shifted, and the vector has the rules of
the lines among them. -/
inductive Parsed : List Symbol → List RuleNode → List Token → Prop
  | nil : Parsed [] [] []
  | token {stack rules ts} (h : Parsed stack rules ts) (t : Token) :
      Parsed (.token t :: stack) rules (ts ++ [t])
  | action {stack rules ts} (h : Parsed stack rules ts) (a : RuleAction) :
      Parsed (.action a :: stack) rules (ts ++ [.action a])
  | stmt {stack rules ts} (h : Parsed stack rules ts) (a : RuleAction) :
      Parsed (.stmt a :: stack) rules (ts ++ [.then, .action a, .semicolon])
  | stmts {stack rules ts us as} (h : Parsed stack rules ts) (hs : Stmts us as) :
      Parsed (.stmts as :: stack) rules (ts ++ us)
  | line {stack rules ts us r} (h : Parsed stack rules ts) (hr : Line us r) :
      Parsed (.line r :: stack) rules (ts ++ us)
  | lines {stack rules ts us rs} (h : Parsed stack rules ts) (hc : Config us rs) :
      Parsed (.lines :: stack) (rules ++ rs) (ts ++ us)

section Sound

variable {p q : Parser} {ts : List Token}

theorem Parsed.reduce (h : Parsed p.stack p.rules ts) (hq : p.reduce = some q) :
    Parsed q.stack q.rules ts := by
  unfold Parser.reduce at hq
  split at hq
  · obtain rfl := Option.some_inj.mp hq
    cases h with | token h _ =>
    exact h.action _
  · obtain rfl := Option.some_inj.mp hq
    cases h with | token h _ =>
    cases h with | action h _ =>
    cases h with | token h _ =>
    simpa using h.stmt _
  · obtain rfl := Option.some_inj.mp hq
    cases h with | stmt h _ =>
    cases h with | stmts h hs =>
    simpa using h.stmts (hs.snoc _)
  · obtain rfl := Option.some_inj.mp hq
    cases h with | stmt h _ =>
    exact h.stmts (.one _)
  · obtain rfl := Option.some_inj.mp hq
    cases h with | token h _ =>
    cases h with | stmts h hs =>
    cases h with | token h _ =>
    cases h with | token h _ =>
    simpa using h.line (.unknown hs)
  · split_ifs at hq with hkind
    obtain rfl := Option.some_inj.mp hq
    cases h with | token h _ =>
    cases h with | stmts h hs =>
    cases h with | token h _ =>
    cases h with | token h _ =>
    cases h with | token h _ =>
    simpa using h.line (.named hkind _ hs)
  · obtain rfl := Option.some_inj.mp hq
    cases h with | line h hr =>
    cases h with | lines h hc =>
    simpa using h.lines (hc.snoc hr)
  · obtain rfl := Option.some_inj.mp hq
    cases h with | line h hr =>
    exact h.lines (.one hr)
  · exact absurd hq (by simp)

theorem Parsed.reduceAll (n : ℕ) (h : Parsed p.stack p.rules ts) :
    Parsed (p.reduceAll n).stack (p.reduceAll n).rules ts := by
  induction n generalizing p with
  | zero => exact h
  | succ n ih =>
    rw [Parser.reduceAll]
    split
    · exact h
    · rename_i q hq
      exact ih (h.reduce hq)

theorem Parsed.foldl (us : List Token) (h : Parsed p.stack p.rules ts) :
    Parsed (us.foldl Parser.shift p).stack (us.foldl Parser.shift p).rules (ts ++ us) := by
  induction us generalizing p ts with
  | nil => rwa [List.append_nil]
  | cons t us ih =>
    have hshift : Parsed (p.shift t).stack (p.shift t).rules (ts ++ [t]) := (h.token t).reduceAll 2
    simpa using ih hshift

theorem config_of_yyparse {rules : List RuleNode} (h : yyparse ts = some rules) :
    Config ts rules := by
  have hparsed : Parsed _ _ ([] ++ ts) := Parsed.foldl (p := ⟨[], []⟩) ts .nil
  unfold yyparse at h
  split at h
  · rename_i rules' heq
    obtain rfl := Option.some_inj.mp h
    rw [heq, List.nil_append] at hparsed
    -- Nothing is below the lines on the stack.
    generalize hrules : (Parser.mk [Symbol.lines] rules').rules = rs at hparsed
    cases hparsed with | lines hnil hc =>
    cases hnil with | nil =>
    obtain rfl : rules' = _ := hrules
    exact hc
  · exact absurd h (by simp)

end Sound

/-! ## Every configuration is accepted -/

section Complete

variable {ts : List Token} {rules rs : List RuleNode} {r : RuleNode} {stack : List Symbol}

/-- The statements of a rule, behind its brace. -/
theorem foldl_stmts {as : List RuleAction} (h : Stmts ts as) :
    ts.foldl Parser.shift ⟨.token .lbrace :: stack, rules⟩ =
      ⟨.stmts as :: .token .lbrace :: stack, rules⟩ := by
  induction h with
  | one a => rfl
  | snoc h a ih =>
    rw [List.foldl_append, ih]
    rfl

/-- A rule, at the start of the file or behind other rules. -/
theorem foldl_line (hstack : stack = [] ∨ stack = [.lines]) (h : Line ts r) :
    ts.foldl Parser.shift ⟨stack, rules⟩ = ⟨[.lines], rules ++ [r]⟩ := by
  cases h with
  | unknown h =>
    rename_i us as
    rw [List.foldl_append]
    change (us.foldl Parser.shift
      ⟨.token .lbrace :: .token (.kind .unknown) :: stack, rules⟩).shift .rbrace = _
    rw [foldl_stmts h]
    rcases hstack with rfl | rfl <;> rfl
  | named hkind name h =>
    rename_i kind us as
    rw [List.foldl_append]
    change (us.foldl Parser.shift ⟨.token .lbrace :: .token (.string name) ::
      .token (.kind kind) :: stack, rules⟩).shift .rbrace = _
    rw [foldl_stmts h]
    have hline : Parser.reduce ⟨.token .rbrace :: .stmts as :: .token .lbrace ::
        .token (.string name) :: .token (.kind kind) :: stack, rules⟩ =
          some ⟨.line (.ofString kind name as) :: stack, rules⟩ := if_neg hkind
    rw [Parser.shift, Parser.reduceAll, hline]
    rcases hstack with rfl | rfl <;> rfl

theorem foldl_config (h : Config ts rs) : ts.foldl Parser.shift ⟨[], []⟩ = ⟨[.lines], rs⟩ := by
  induction h with
  | one h => exact foldl_line (Or.inl rfl) h
  | snoc h hr ih => rw [List.foldl_append, ih, foldl_line (Or.inr rfl) hr]

/-- **The parser accepts the configurations and gives their rules.** -/
theorem yyparse_eq_some_iff : yyparse ts = some rs ↔ Config ts rs := by
  refine ⟨config_of_yyparse, fun h => ?_⟩
  rw [yyparse, foldl_config h]

end Complete

end Mavicona.Extract
