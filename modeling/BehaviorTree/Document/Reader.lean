import BehaviorTree.Document.Token.Lexer

/-!
Reading documents. Tokens are put together to scalars and collections, which are written in block
style by indentation or in flow style between brackets. What may stand in a place depends on its
surroundings: flow collections hold no block collections, and only in a block mapping may the items
of a sequence stand in the column of the keys.
-/

namespace BehaviorTree.Document

/-- Where a node stands. -/
inductive Position where
  /-- In a flow collection. -/
  | flow
  /-- An item of a block sequence, or the whole document. -/
  | item
  /-- A key or a value of a block mapping. -/
  | entry
deriving DecidableEq, Repr

/-- What reads a datum from the beginning of some tokens; it gives the tokens after it too. -/
abbrev Reader := List Token → Option (Datum × List Token)

/-- Reads null where one of these tokens shows that there is nothing, and else a datum. -/
def orNull (isEnd : Token → Bool) (node : Reader) : Reader
  | [] => node []
  | token :: t => if isEnd token then some (.null, token :: t) else node (token :: t)

/-- Reads a scalar, quoted or not. -/
def scalarNode : Reader
  | .plain text :: t => (scalar? text).map (·, t)
  | .quoted text :: t => some (.text text, t)
  | _ => none

/-- The items of a block sequence. Each loop below reads at most as many items as there are
tokens. -/
def blockItems (node : Reader) : Nat → List Datum → Reader
  | 0, _, _ => none
  | fuel + 1, reversed, tokens =>
    match tokens with
    | .blockEnd :: t => some (.list reversed.reverse, t)
    | .item :: t => do
      let (d, t) ← orNull (fun token => token = .item ∨ token = .blockEnd) node t
      blockItems node fuel (d :: reversed) t
    | _ => none

/-- Tokens after which a key or value of a block mapping is missing. -/
def endsEntry (token : Token) : Bool := token = .key ∨ token = .value ∨ token = .blockEnd

/-- The items of a sequence in the column of the keys around it; any other token ends it. -/
def alignedItems (node : Reader) : Nat → List Datum → Reader
  | 0, _, _ => none
  | fuel + 1, reversed, tokens =>
    match tokens with
    | .item :: t => do
      let (d, t) ← orNull (fun token => token = .item ∨ endsEntry token) node t
      alignedItems node fuel (d :: reversed) t
    | t => some (.list reversed.reverse, t)

/-- What follows a key: its value after a colon, or nothing. -/
def valueAfter (isEnd : Token → Bool) (node : Reader) : Reader
  | .value :: t => orNull isEnd node t
  | t => some (.null, t)

/-- Reads the entries of a block mapping, in reverse as they come. -/
def blockEntries (node : Reader) : Nat → List (Datum × Datum) → Reader
  | 0, _, _ => none
  | fuel + 1, reversed, tokens =>
    match tokens with
    | .blockEnd :: t => some (.map reversed.reverse, t)
    | .key :: t => do
      let (key, t) ← orNull endsEntry node t
      let (value, t) ← valueAfter endsEntry node t
      blockEntries node fuel ((key, value) :: reversed) t
    | .value :: t => do
      let (value, t) ← orNull endsEntry node t
      blockEntries node fuel ((.null, value) :: reversed) t
    | _ => none

/-- A mapping of one entry that is an item of a flow sequence. A missing key takes the token after
it away. -/
def flowPair (node : Reader) : Reader := fun tokens => do
  let isEnd := fun token => token = .comma ∨ token = .closeBracket
  let (key, t) ←
    match tokens with
    | token :: t => if token = .value ∨ isEnd token then some (.null, t) else node tokens
    | [] => none
  let (value, t) ← valueAfter isEnd node t
  some (.map [(key, value)], t)

/-- The next item or entry of a flow collection begins after a comma, except for the first. -/
def afterComma? (isFirst : Bool) : List Token → Option (List Token)
  | .comma :: t => if isFirst then some (.comma :: t) else some t
  | t => if isFirst then some t else none

/-- The items of a flow sequence. -/
def flowItems (node pair : Reader) : Nat → List Datum → Reader
  | 0, _, _ => none
  | fuel + 1, reversed, tokens =>
    match tokens with
    | .closeBracket :: t => some (.list reversed.reverse, t)
    | tokens => do
      match ← afterComma? reversed.isEmpty tokens with
      | .closeBracket :: t => some (.list reversed.reverse, t)
      | .key :: t => do
        let (d, t) ← pair t
        flowItems node pair fuel (d :: reversed) t
      | t => do
        let (d, t) ← node t
        flowItems node pair fuel (d :: reversed) t

/-- The entries of a flow mapping. -/
def flowEntries (node : Reader) : Nat → List (Datum × Datum) → Reader
  | 0, _, _ => none
  | fuel + 1, reversed, tokens =>
    let isEnd := fun token => token = .comma ∨ token = .closeBrace
    match tokens with
    | .closeBrace :: t => some (.map reversed.reverse, t)
    | tokens => do
      match ← afterComma? reversed.isEmpty tokens with
      | .closeBrace :: t => some (.map reversed.reverse, t)
      | .key :: t => do
        let (key, t) ← orNull (fun token => token = .value ∨ isEnd token) node t
        let (value, t) ← valueAfter isEnd node t
        flowEntries node fuel ((key, value) :: reversed) t
      | .value :: t => do
        let (value, t) ← orNull isEnd node t
        flowEntries node fuel ((.null, value) :: reversed) t
      | t => do
        let (key, t) ← node t
        flowEntries node fuel ((key, .null) :: reversed) t

/-- Reads a datum in which collections are nested at most to the given depth. -/
def node : Nat → Position → Reader
  | 0, _ => scalarNode
  | depth + 1, position => fun tokens =>
    let fuel := tokens.length
    match tokens with
    | .openBracket :: t =>
      let pair : Reader :=
        match depth with
        | 0 => fun _ => none
        | inner + 1 => flowPair (node inner .flow)
      flowItems (node depth .flow) pair fuel [] t
    | .openBrace :: t => flowEntries (node depth .flow) fuel [] t
    | .blockSequence :: t =>
      if position = .flow then none else blockItems (node depth .item) fuel [] t
    | .blockMapping :: t =>
      if position = .flow then none else blockEntries (node depth .entry) fuel [] t
    | .item :: _ =>
      if position = .entry then alignedItems (node depth .item) fuel [] tokens else none
    | tokens => scalarNode tokens

/-- How deep collections may be nested in a document. -/
def greatestDepth : Nat := 128

/-- The content of a single document, which may have a marker before it and markers after it. -/
def Datum.ofTokens? (tokens : List Token) : Option Datum := do
  let (d, rest) ←
    match tokens with
    | .documentStart :: t =>
      match t with
      | [] => some (.null, [])
      | .documentStart :: _ => some (.null, t)
      | .documentEnd :: _ => some (.null, t)
      | _ => node greatestDepth .item t
    | t => node greatestDepth .item t
  if rest.all (· = .documentEnd) then some d else none

/-- The single document of a text. -/
def read (text : String) : Option Datum := (tokens? text).bind Datum.ofTokens?

end BehaviorTree.Document
