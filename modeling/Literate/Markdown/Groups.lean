import Literate.Document.Basic

/-!
# Attribute groups behind code spans

Markdown knows no attributes of inline code, so a group `{...}` behind a code span is read as text.
`attachGroups` takes such text and moves what it says to the span. It goes through every list of
inlines once: neighbouring texts are joined first (`joinTexts`), since a group may be cut in several,
and a group must follow its span at once.
-/

namespace Literate.Markdown

/-- The inlines with neighbouring texts joined. -/
def joinTexts : List Inline → List Inline
  | [] => []
  | .text text :: inlines =>
    match joinTexts inlines with
    | .text next :: rest => .text (text ++ next) :: rest
    | rest => .text text :: rest
  | inline :: inlines => inline :: joinTexts inlines

/-- The inlines with each group that opens the text behind a code span moved to the span. -/
def moveGroups : List Inline → List Inline
  | [] => []
  | .code attr text :: .text next :: inlines =>
    match Attr.splitGroup? next with
    | some (group, rest) =>
      .code group text :: (if rest.isEmpty then [] else [.text rest]) ++ moveGroups inlines
    | none => .code attr text :: .text next :: moveGroups inlines
  | inline :: inlines => inline :: moveGroups inlines

/-- The inlines with texts joined and groups moved to the code spans that they follow. -/
def attachGroups (inlines : List Inline) : List Inline :=
  moveGroups (joinTexts inlines)

end Literate.Markdown
