import Literate.Document.Basic
import Literate.Text.Blank

/-!
# Blocks as one run of inlines

Where a document wants inlines and has blocks, the blocks are flattened: each leaf gives its inline
content, a code block a code span, a rule nothing, and the runs that are not empty are put one after
the other with a soft break between neighbours (`joinRuns`).
-/

namespace Literate

/-- Two runs of inlines with a soft break between them, unless one of them is empty. -/
def joinRuns (first second : List Inline) : List Inline :=
  if first.isEmpty then second
  else if second.isEmpty then first
  else first ++ .softBreak :: second

def dropEndFeeds (s : String) : String :=
  String.ofList (Text.dropEndWhile (· = '\n') s.toList)

mutual

/-- The run of inlines that one block gives. -/
def Block.flatten : Block → List Inline
  | .plain content | .paragraph content | .tableCell content | .heading _ _ content => content
  | .codeBlock attr text => [.code attr (dropEndFeeds text)]
  | .blockQuote content | .listItem content | .tableRow content | .div _ content
  | .orderedList _ content | .bulletList content => flattenBlocks content
  | .table _ head rows => joinRuns head.flatten (flattenBlocks rows)
  | .html text => [.html text]
  | .rule => []

/-- Blocks as one run of inlines, with soft breaks between the runs of neighbours. -/
def flattenBlocks : List Block → List Inline
  | [] => []
  | block :: blocks => joinRuns block.flatten (flattenBlocks blocks)

end

end Literate
