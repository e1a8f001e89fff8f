import GuildPolicy.Syntax.Parser
import Mathlib.Data.List.Forall2

namespace GuildPolicy.Syntax

open GuildPolicy.Source

/-- Zero less an expression, from the minus sign on. -/
def Expression.negation (minus : Token) (e : Expression) : Expression :=
  .binary .subtract (.literal ⟨.integer, "0", .point minus.span.start⟩) e
    (minus.span.to ((Span.point minus.span.start).to e.span))

def Expression.operation (op : Operator) (left right : Expression) : Expression :=
  .binary op left right (left.span.to right.span)

/-- A property with its expression. -/
structure DraftProperty where
  name : Token
  value : Expression

namespace DraftProperty

def fold (d : DraftProperty) : Except SyntaxError Property :=
  match d.value.fold with
  | .ok value => .ok ⟨d.name.value, value, d.name.span.to value.span⟩
  | .error e => .error e

def Named (d : DraftProperty) : Prop := d.name.value ∈ propertyNames

instance (d : DraftProperty) : Decidable d.Named := inferInstanceAs (Decidable (_ ∈ _))

end DraftProperty

/-- A statement whose expressions are not carried out. There may be any number of module blocks, and
properties of any name. -/
inductive DraftStatement
  | module (keyword : Token) (properties : List DraftProperty) (brace : Token)
  | require (block : RequireBlock)
  | rule (r : Rule)

namespace DraftStatement

def isModule : DraftStatement → Bool
  | .module .. => true
  | _ => false

def properties : DraftStatement → List DraftProperty
  | .module _ ps _ => ps
  | _ => []

/-- What becomes of a statement once the expressions in it are carried out. -/
inductive Becomes : DraftStatement → Statement → Prop
  | module {keyword brace : Token} {drafts : List DraftProperty} {ps : List Property}
      (h : List.Forall₂ (fun d p => d.fold = .ok p) drafts ps) :
      Becomes (.module keyword drafts brace) (.module ⟨ps, keyword.span.to brace.span⟩)
  | require (block : RequireBlock) : Becomes (.require block) (.require block)
  | rule (r : Rule) : Becomes (.rule r) (.rule r)

end DraftStatement

/-- `unary = "-" unary | literal` -/
inductive IsUnary : List Token → Expression → Prop
  | literal {t : Token} (ht : t.kind ∈ [TokenKind.string, .integer, .true, .false]) :
      IsUnary [t] (.literal ⟨.ofToken t.kind, t.value, t.span⟩)
  | minus {t : Token} {ts : List Token} {e : Expression} (ht : t.kind = .minus)
      (h : IsUnary ts e) : IsUnary (t :: ts) (.negation t e)

/-- `operand (operator operand)*`, from the left. -/
inductive IsChain (operator? : TokenKind → Option Operator)
    (IsOperand : List Token → Expression → Prop) : List Token → Expression → Prop
  | operand {ts : List Token} {e : Expression} (h : IsOperand ts e) :
      IsChain operator? IsOperand ts e
  | operation {ts us : List Token} {t : Token} {op : Operator} {left right : Expression}
      (hl : IsChain operator? IsOperand ts left) (ht : operator? t.kind = some op)
      (hr : IsOperand us right) :
      IsChain operator? IsOperand (ts ++ t :: us) (.operation op left right)

/-- `product = unary (("*" | "/" | "%") unary)*` -/
abbrev IsProduct : List Token → Expression → Prop := IsChain Operator.ofFactor? IsUnary

/-- `sum = product (("+" | "-") product)*` -/
abbrev IsSum : List Token → Expression → Prop := IsChain Operator.ofSummand? IsProduct

/-- `(item ";"*)*` -/
inductive IsItems {α : Type} (IsItem : List Token → α → Prop) : List Token → List α → Prop
  | nil : IsItems IsItem [] []
  | cons {ts semicolons us : List Token} {a : α} {as : List α} (h : IsItem ts a)
      (hsemi : ∀ t ∈ semicolons, t.kind = .semicolon) (hrest : IsItems IsItem us as) :
      IsItems IsItem (ts ++ (semicolons ++ us)) (a :: as)

/-- `"{" (item ";"*)* "}"`, with the closing brace. -/
inductive IsBlock {α : Type} (IsItem : List Token → α → Prop) :
    List Token → List α → Token → Prop
  | mk {brace brace' : Token} {ts : List Token} {as : List α} (hopen : brace.kind = .braceOpen)
      (h : IsItems IsItem ts as) (hclose : brace'.kind = .braceClose) :
      IsBlock IsItem (brace :: (ts ++ [brace'])) as brace'

/-- `identifier sum` -/
inductive IsProperty : List Token → DraftProperty → Prop
  | mk {name : Token} {ts : List Token} {e : Expression} (hname : name.kind = .identifier)
      (h : IsSum ts e) : IsProperty (name :: ts) ⟨name, e⟩

/-- `"type" identifier` -/
inductive IsRequiredType : List Token → Name → Prop
  | mk {keyword name : Token} (hkey : keyword.kind = .type) (hname : name.kind = .identifier) :
      IsRequiredType [keyword, name] ⟨name.value, keyword.span.to name.span⟩

/-- `(identifier ("," identifier)* ","?)?` -/
inductive IsNames : List Token → List Name → Prop
  | nil : IsNames [] []
  | last {t : Token} (ht : t.kind = .identifier) : IsNames [t] [t.toName]
  | cons {t comma : Token} {ts : List Token} {ns : List Name} (ht : t.kind = .identifier)
      (hcomma : comma.kind = .comma) (h : IsNames ts ns) :
      IsNames (t :: comma :: ts) (t.toName :: ns)

/-- `("allow" | "deny") identifier (identifier | "*") "{" names "}"` -/
inductive IsRule : List Token → Rule → Prop
  | mk {keyword subject target brace brace' : Token} {ts : List Token} {ns : List Name}
      (hkey : keyword.kind ∈ [TokenKind.allow, .deny]) (hsubject : subject.kind = .identifier)
      (htarget : target.kind ∈ [TokenKind.identifier, .star]) (hopen : brace.kind = .braceOpen)
      (h : IsNames ts ns) (hclose : brace'.kind = .braceClose) :
      IsRule (keyword :: subject :: target :: brace :: (ts ++ [brace']))
        ⟨.ofToken keyword.kind, subject.toName, .ofToken target, target.span, ns,
          keyword.span.to brace'.span⟩

/-- `"module" "{" (property ";"*)* "}"`, `"require" "{" (requiredType ";"*)* "}"`, or a rule. -/
inductive IsStatement : List Token → DraftStatement → Prop
  | module {keyword brace : Token} {ts : List Token} {ps : List DraftProperty}
      (hkey : keyword.kind = .module) (h : IsBlock IsProperty ts ps brace) :
      IsStatement (keyword :: ts) (.module keyword ps brace)
  | require {keyword brace : Token} {ts : List Token} {ns : List Name}
      (hkey : keyword.kind = .require) (h : IsBlock IsRequiredType ts ns brace) :
      IsStatement (keyword :: ts) (.require ⟨ns, keyword.span.to brace.span⟩)
  | rule {ts : List Token} {r : Rule} (h : IsRule ts r) : IsStatement ts (.rule r)

/-- `policy = (statement ";"*)*` -/
abbrev IsPolicy : List Token → List DraftStatement → Prop := IsItems IsStatement

/-- What the grammar leaves open and a policy still has to be. -/
structure DraftStatement.Acceptable (drafts : List DraftStatement) : Prop where
  once : drafts.countP isModule ≤ 1
  named : ∀ d ∈ drafts, ∀ p ∈ d.properties, p.Named
  folds : ∀ d ∈ drafts, ∀ p ∈ d.properties, ∃ value, p.value.fold = .ok value

end GuildPolicy.Syntax
