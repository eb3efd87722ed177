import Initd.Lexer.Token

namespace Initd

/-! Where a token of a file stands, as far as the tokens before it tell. -/

/-- What the tokens of a task or of a property have led to. -/
inductive Place
  | outside
  | name
  | equals
  | value
  | tag
  deriving DecidableEq

/-- `depth` is the number of structs whose braces are open. -/
structure Outline where
  depth : Nat
  place : Place
  deriving DecidableEq

namespace Outline

/-- A token that continues no task and no property. -/
def skip (depth : Nat) (type : TokenType) : Outline :=
  match depth with
  | 0 => if type = .taskKeyword then ⟨0, .name⟩ else ⟨0, .outside⟩
  | depth + 1 =>
      if type = .rbrace then ⟨depth, .outside⟩
      else if type = .identifier then ⟨depth + 1, .equals⟩
      else ⟨depth + 1, .outside⟩

/-- A name and an `=` may be missing, and a brace opens a struct after the tag
of a value only. -/
def step : Outline → TokenType → Outline
  | ⟨depth, .outside⟩, type => skip depth type
  | ⟨depth, .name⟩, type =>
      if type = .identifier then ⟨depth, .equals⟩
      else if type = .equals then ⟨depth, .value⟩
      else skip depth type
  | ⟨depth, .equals⟩, type =>
      if type = .equals then ⟨depth, .value⟩
      else if type = .identifier then ⟨depth, .tag⟩
      else skip depth type
  | ⟨depth, .value⟩, type =>
      if type = .identifier then ⟨depth, .tag⟩ else skip depth type
  | ⟨depth, .tag⟩, type =>
      if type = .lbrace then ⟨depth + 1, .outside⟩ else skip depth type

end Outline

def StartsWithIdentifier (tokens : List Token) : Prop :=
  tokens.head?.map Token.getType = some .identifier

instance (tokens : List Token) : Decidable (StartsWithIdentifier tokens) :=
  inferInstanceAs (Decidable (_ = _))

/-- An identifier follows each `run_level` keyword outside of all braces. -/
def NamedFrom : Outline → List Token → Prop
  | _, [] => True
  | outline, token :: rest =>
      (outline.depth = 0 → token.getType = .runLevelKeyword →
        StartsWithIdentifier rest) ∧
      NamedFrom (outline.step token.getType) rest

def RunLevelsNamed (tokens : List Token) : Prop :=
  NamedFrom ⟨0, .outside⟩ tokens

namespace NamedFrom

variable {depth : Nat} {place : Place} {token : Token} {rest : List Token}

/-- Only the next token tells two places of one depth apart. -/
theorem congr {place' : Place} {tokens : List Token}
    (same : ∀ token ∈ tokens.head?,
      Outline.step ⟨depth, place⟩ token.getType =
        Outline.step ⟨depth, place'⟩ token.getType) :
    NamedFrom ⟨depth, place⟩ tokens ↔ NamedFrom ⟨depth, place'⟩ tokens := by
  cases tokens with
  | nil => exact Iff.rfl
  | cons token rest =>
      rw [NamedFrom, NamedFrom, same token rfl]

theorem cons (other : token.getType ≠ .runLevelKeyword) :
    NamedFrom ⟨depth, place⟩ (token :: rest) ↔
      NamedFrom (Outline.step ⟨depth, place⟩ token.getType) rest :=
  ⟨And.right, fun named => ⟨fun _ same => absurd same other, named⟩⟩

theorem cons_inside :
    NamedFrom ⟨depth + 1, place⟩ (token :: rest) ↔
      NamedFrom (Outline.step ⟨depth + 1, place⟩ token.getType) rest :=
  ⟨And.right, fun named =>
    ⟨fun outside => absurd outside (Nat.succ_ne_zero depth), named⟩⟩

end NamedFrom

end Initd
