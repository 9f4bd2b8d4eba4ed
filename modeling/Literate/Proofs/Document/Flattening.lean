import Literate.Document.Flatten
import Mathlib

/-!
# Flattened blocks

The blocks that hold no others, in reading order, are all that is left of blocks when they are flattened.
Each of these leaves gives one run of inlines, and between neighbouring runs that are not empty stands
exactly one soft break. Flattening recurses over the whole tree and puts soft breaks in at every level of it.
That none is doubled, lost or left at an end is the associativity of `joinRuns`, whose unit is the empty run:
the levels of the tree are brackets that can be left out.

Main result: `flattenBlocks_joins_leaves`.
-/

namespace Literate

-- ---------------------------------------------------------------------------
-- Leaves
-- ---------------------------------------------------------------------------

mutual

/-- The blocks in a block that hold no others, in reading order: the head of a table comes before its
rows. -/
def Block.leaves : Block → List Block
  | .blockQuote content | .listItem content | .tableRow content | .div _ content
  | .orderedList _ content | .bulletList content => leavesOf content
  | .table _ head rows => head.leaves ++ leavesOf rows
  | leaf => [leaf]

def leavesOf : List Block → List Block
  | [] => []
  | block :: blocks => block.leaves ++ leavesOf blocks

end

/-- The inlines that a leaf stands for. -/
def Block.run : Block → List Inline
  | .plain content | .paragraph content | .tableCell content | .heading _ _ content => content
  | .codeBlock attr text => [.code attr (dropEndFeeds text)]
  | .html text => [.html text]
  | _ => []

/-- What stands in a container, in reading order. A leaf is left as it is. -/
def Block.unwrapped : Block → List Block
  | .blockQuote content | .listItem content | .tableRow content | .div _ content
  | .orderedList _ content | .bulletList content => content
  | .table _ head rows => head :: rows
  | leaf => [leaf]

/-- Runs with one soft break between neighbours, the empty ones left out. -/
def joined (runs : List (List Inline)) : List Inline :=
  [.softBreak].intercalate (runs.filter fun run => !run.isEmpty)

theorem leavesOf_append (blocks more : List Block) :
    leavesOf (blocks ++ more) = leavesOf blocks ++ leavesOf more := by
  induction blocks with
  | nil => rfl
  | cons block blocks ih => rw [List.cons_append, leavesOf, ih, leavesOf, List.append_assoc]

mutual

theorem leavesOf_leaves : ∀ block : Block, leavesOf block.leaves = block.leaves
  | .blockQuote content | .listItem content | .tableRow content | .div _ content
  | .orderedList _ content | .bulletList content => leavesOf_leavesOf content
  | .table _ head rows => by
    rw [Block.leaves, leavesOf_append, leavesOf_leaves head, leavesOf_leavesOf rows]
  | .plain _ | .paragraph _ | .heading .. | .codeBlock .. | .tableCell _ | .html _ | .rule => rfl

/-- No leaf holds another. -/
theorem leavesOf_leavesOf : ∀ blocks : List Block, leavesOf (leavesOf blocks) = leavesOf blocks
  | [] => rfl
  | block :: blocks => by
    rw [leavesOf, leavesOf_append, leavesOf_leaves block, leavesOf_leavesOf blocks]

end

/-- A text without the line feeds at its end. -/
theorem dropEndFeeds_append (text : String) : ∃ feeds,
    text.toList = (dropEndFeeds text).toList ++ List.replicate feeds '\n' ∧
      (dropEndFeeds text).toList.getLast? ≠ some '\n' := by
  let back := text.toList.reverse
  refine ⟨(back.takeWhile (· = '\n')).length, ?_, fun hlast => ?_⟩
  · have hfeeds : (back.takeWhile (· = '\n')).reverse =
        List.replicate (back.takeWhile (· = '\n')).length '\n' :=
      List.eq_replicate_iff.mpr ⟨List.length_reverse, fun c hc => by
        simpa using List.mem_takeWhile_imp (List.mem_reverse.mp hc)⟩
    rw [dropEndFeeds, String.toList_ofList, Text.dropEndWhile, ← hfeeds, ← List.reverse_append,
      List.takeWhile_append_dropWhile, List.reverse_reverse]
  · rw [dropEndFeeds, String.toList_ofList, Text.dropEndWhile, List.getLast?_reverse] at hlast
    have hhead := List.head?_dropWhile_not (· = '\n') back
    rw [hlast] at hhead
    cases hhead

-- ---------------------------------------------------------------------------
-- Runs with soft breaks between them
-- ---------------------------------------------------------------------------

@[simp]
theorem joinRuns_nil_left (run : List Inline) : joinRuns [] run = run :=
  rfl

@[simp]
theorem joinRuns_nil_right (run : List Inline) : joinRuns run [] = run := by
  cases run <;> rfl

theorem joinRuns_cons_cons (i j : Inline) (is js : List Inline) :
    joinRuns (i :: is) (j :: js) = i :: is ++ .softBreak :: j :: js :=
  rfl

theorem joinRuns_eq (first second : List Inline) :
    joinRuns first second =
      first ++ (if first.isEmpty || second.isEmpty then [] else [.softBreak]) ++ second := by
  cases first <;> cases second <;> simp [joinRuns]

theorem joinRuns_assoc (first second third : List Inline) :
    joinRuns (joinRuns first second) third = joinRuns first (joinRuns second third) := by
  cases first with
  | nil => rfl
  | cons i is =>
    cases second with
    | nil => rw [joinRuns_nil_right, joinRuns_nil_left]
    | cons j js =>
      cases third with
      | nil => rw [joinRuns_nil_right, joinRuns_nil_right]
      | cons k ks =>
        rw [joinRuns_cons_cons, joinRuns_cons_cons, List.cons_append, List.cons_append,
          joinRuns_cons_cons, joinRuns_cons_cons]
        simp

theorem joined_cons (run : List Inline) (runs : List (List Inline)) :
    joined (run :: runs) = joinRuns run (joined runs) := by
  cases run with
  | nil => rfl
  | cons i is =>
    rw [joined, List.filter_cons_of_pos (by rfl), joined]
    cases hruns : runs.filter fun run => !run.isEmpty with
    | nil => rw [List.intercalate_singleton, List.intercalate_nil, joinRuns_nil_right]
    | cons next rest =>
      have hnext : next ∈ runs.filter fun run => !run.isEmpty := hruns ▸ List.mem_cons_self
      obtain ⟨j, js, rfl⟩ : ∃ j js, next = j :: js :=
        List.exists_cons_of_ne_nil (by simpa using (List.mem_filter.mp hnext).2)
      obtain ⟨tail, htail⟩ : ∃ tail, [Inline.softBreak].intercalate ((j :: js) :: rest) = j :: tail := by
        cases rest with
        | nil => exact ⟨js, by rw [List.intercalate_singleton]⟩
        | cons _ _ => exact ⟨_, by rw [List.intercalate_cons_cons]; rfl⟩
      rw [List.intercalate_cons_cons, htail, joinRuns_cons_cons]
      simp

theorem joined_singleton (run : List Inline) : joined [run] = run := by
  rw [joined_cons]
  exact joinRuns_nil_right run

theorem joined_append (runs more : List (List Inline)) :
    joined (runs ++ more) = joinRuns (joined runs) (joined more) := by
  induction runs with
  | nil => rfl
  | cons run runs ih => rw [List.cons_append, joined_cons, joined_cons, ih, joinRuns_assoc]

-- ---------------------------------------------------------------------------
-- Flattening
-- ---------------------------------------------------------------------------

theorem flattenBlocks_append (blocks more : List Block) :
    flattenBlocks (blocks ++ more) = joinRuns (flattenBlocks blocks) (flattenBlocks more) := by
  induction blocks with
  | nil => rfl
  | cons block blocks ih =>
    rw [List.cons_append, flattenBlocks, ih, flattenBlocks, joinRuns_assoc]

theorem flattenBlocks_singleton (block : Block) : flattenBlocks [block] = block.flatten := by
  rw [flattenBlocks, flattenBlocks, joinRuns_nil_right]

theorem flattenBlocks_unwrapped (block : Block) : flattenBlocks block.unwrapped = block.flatten := by
  cases block with
  | table alignments head rows => rfl
  | blockQuote content | listItem content | tableRow content | div attr content
  | orderedList start content | bulletList content => rfl
  | _ => exact flattenBlocks_singleton _

mutual

theorem Block.flatten_eq : ∀ block : Block, block.flatten = joined (block.leaves.map Block.run)
  | .plain content | .paragraph content | .tableCell content | .heading _ _ content =>
    (joined_singleton content).symm
  | .codeBlock attr text => (joined_singleton [.code attr (dropEndFeeds text)]).symm
  | .blockQuote content | .listItem content | .tableRow content | .div _ content
  | .orderedList _ content | .bulletList content => flattenBlocks_eq content
  | .table _ head rows => by
    rw [Block.flatten, Block.leaves, List.map_append, joined_append, Block.flatten_eq head,
      flattenBlocks_eq rows]
  | .html text => (joined_singleton [.html text]).symm
  | .rule => rfl

theorem flattenBlocks_eq : ∀ blocks : List Block,
    flattenBlocks blocks = joined ((leavesOf blocks).map Block.run)
  | [] => rfl
  | block :: blocks => by
    rw [flattenBlocks, leavesOf, List.map_append, joined_append, Block.flatten_eq block,
      flattenBlocks_eq blocks]

end

/-- Blocks are flattened to the runs of their leaves, code without the line feeds at its end, with one soft
break between neighbours. So the soft break between two parts is there if neither gives nothing, and a
container anywhere among blocks can be left out, as can all of them at every depth. -/
theorem flattenBlocks_joins_leaves (blocks more : List Block) :
    flattenBlocks blocks = joined ((leavesOf blocks).map Block.run) ∧
      (∀ attr text, ∃ code feeds, Block.run (.codeBlock attr text) = [.code attr code] ∧
        text.toList = code.toList ++ List.replicate feeds '\n' ∧ code.toList.getLast? ≠ some '\n') ∧
      flattenBlocks (blocks ++ more) =
        flattenBlocks blocks ++
          (if (flattenBlocks blocks).isEmpty || (flattenBlocks more).isEmpty then [] else [.softBreak]) ++
          flattenBlocks more ∧
      (∀ block : Block,
        flattenBlocks (blocks ++ block :: more) = flattenBlocks (blocks ++ block.unwrapped ++ more)) ∧
      flattenBlocks (leavesOf blocks) = flattenBlocks blocks := by
  refine ⟨flattenBlocks_eq blocks, fun attr text => ?_, ?_, fun block => ?_, ?_⟩
  · obtain ⟨feeds, htext, hlast⟩ := dropEndFeeds_append text
    exact ⟨dropEndFeeds text, feeds, rfl, htext, hlast⟩
  · rw [flattenBlocks_append, joinRuns_eq]
  · rw [flattenBlocks_append, flattenBlocks_append, flattenBlocks_append, flattenBlocks_unwrapped,
      flattenBlocks, joinRuns_assoc]
  · rw [flattenBlocks_eq, flattenBlocks_eq, leavesOf_leavesOf]

end Literate
