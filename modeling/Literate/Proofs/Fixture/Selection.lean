import Literate.CommandLine.Run
import Literate.Proofs.Text.Lines
import Literate.Proofs.Text.Runs

/-!
# Running the fixtures of some categories

A request is compared with the name of a category once the slashes around it are taken off. It asks for the
category of that name and for the folders below, name by name (`isAskedFor_iff`): what stands between two
slashes is compared as a whole. Fixtures are sorted into categories one run at a time, and each of them is in
one (`paths_filter_grouped`), so that those of the categories that are picked are the fixtures in their folders,
once each (`paths_filter_ofDirectory`).

The top directory is shown under a label that is not its name, which is empty. A request for the label is for a
folder of that name (`livedoc_test_root`).

Main result: `CommandLine.livedoc_test`.
-/

namespace Literate

-- ---------------------------------------------------------------------------
-- Folders
-- ---------------------------------------------------------------------------

namespace Text

variable {sep : Char} {cs ds : List Char}

/-- The pieces of a text are the first of another's if that is the same or goes on behind a separator. -/
theorem splitAt_prefix_iff : splitAt sep cs <+: splitAt sep ds ↔ ds = cs ∨ cs ++ [sep] <+: ds := by
  have hjoined : ∀ es, [sep].intercalate (splitAt sep es) = es := fun es => by
    rw [splitAt_eq_splitOn]
    exact List.intercalate_splitOn sep
  constructor
  · rintro ⟨more, hmore⟩
    rcases more with _ | ⟨piece, more⟩
    · left
      rw [← hjoined ds, ← hmore, List.append_nil, hjoined]
    · right
      have hne : splitAt sep cs ≠ [] := by
        rw [splitAt_eq_splitOn]
        exact List.splitOn_ne_nil sep cs
      have hds := intercalate_append hne (List.cons_ne_nil piece more) [sep]
      rw [hmore, hjoined, hjoined] at hds
      exact ⟨_, hds.symm⟩
  · rintro (rfl | ⟨rest, rfl⟩)
    · exact List.prefix_rfl
    · rw [List.append_assoc, List.singleton_append]
      simp only [splitAt_eq_splitOn]
      rw [List.splitOn_append_cons_self]
      exact List.prefix_append ..

end Text

/-- Whether a folder is another one or in it, by the names on the way. -/
def IsWithin (folder outer : String) : Prop :=
  Text.splitAt '/' outer.toList <+: Text.splitAt '/' folder.toList

namespace Category

/-- Whether a request is the label of a category, with or without slashes around it. -/
def IsNamedBy (category : Category) (request : String) : Prop :=
  ∃ before behind, request.toList =
    List.replicate before '/' ++ category.label.toList ++ List.replicate behind '/'

/-- Whether the label of a category is its name, and no slash is at either end of it. Other categories are the
top directory, and those of directories that have a backslash at the front or the end of their names. -/
structure IsPlain (category : Category) : Prop where
  not_root : category.name ≠ ""
  no_slash_before : category.name.toList.head? ≠ some '/'
  no_slash_behind : category.name.toList.getLast? ≠ some '/'

end Category

namespace Suite

-- ---------------------------------------------------------------------------
-- Requests
-- ---------------------------------------------------------------------------

/-- A request asks for a category and for those below it. -/
theorem isAskedFor_iff (category : Category) (request : String) :
    isAskedFor category request = true ↔
      IsWithin category.name (String.ofList (trimSlashes request)) := by
  rw [IsWithin, String.toList_ofList, Text.splitAt_prefix_iff, isAskedFor]
  simp

/-- What is left of the label of a plain category is its name. -/
theorem trimSlashes_of_isNamedBy {category : Category} {request : String} (hplain : category.IsPlain)
    (hnamed : category.IsNamedBy request) : String.ofList (trimSlashes request) = category.name := by
  obtain ⟨before, behind, hrequest⟩ := hnamed
  have hlabel : category.label = category.name := by
    rw [Category.label, if_neg (by simpa using hplain.not_root)]
  have hfirst : ∀ c ∈ (category.name.toList ++ List.replicate behind '/').head?, decide (c = '/') = false := by
    intro c hc
    have hname : category.name.toList ≠ [] := by simpa using hplain.not_root
    rw [List.head?_append_of_ne_nil _ hname] at hc
    exact decide_eq_false fun heq => hplain.no_slash_before (heq ▸ hc)
  have hlast : ∀ c ∈ category.name.toList.getLast?, decide (c = '/') = false :=
    fun c hc => decide_eq_false fun heq => hplain.no_slash_behind (heq ▸ hc)
  rw [trimSlashes, hrequest, hlabel, List.append_assoc, Text.dropWhile_run (by simp) hfirst,
    Text.dropEndWhile_append _ hlast (by simp), String.ofList_toList]

/-- A category answers to its own label. -/
theorem isAskedFor_of_isNamedBy {category : Category} {request : String} (hplain : category.IsPlain)
    (hnamed : category.IsNamedBy request) : isAskedFor category request = true := by
  rw [isAskedFor_iff, trimSlashes_of_isNamedBy hplain hnamed, IsWithin]

/-- No request goes without an answer exactly if there is no warning. -/
theorem warnings_eq_nil_iff {suite : Suite} {requests : List String} :
    warnings suite requests = [] ↔
      ∀ request ∈ requests, ∃ category ∈ suite, isAskedFor category request = true := by
  rw [warnings, List.filterMap_eq_nil_iff]
  simp

/-- Whether some request asks for a folder. -/
def isWanted (requests : List String) (folder : String) : Bool :=
  requests.any fun request => isAskedFor ⟨folder, []⟩ request

/-- Which categories are picked depends on their names alone. -/
theorem select_eq (suite : Suite) {requests : List String} (hrequests : requests ≠ []) :
    select suite requests = suite.filter fun category => isWanted requests category.name := by
  rw [select, if_neg (by simpa using hrequests)]
  rfl

-- ---------------------------------------------------------------------------
-- Fixtures by categories
-- ---------------------------------------------------------------------------

/-- The fixtures of all categories. -/
def paths (suite : Suite) : List String :=
  suite.flatMap (·.paths)

/-- The fixtures below a directory, by their routes from there. -/
def fixtures (files : Files) (path : String) : List Route :=
  (files.below path).filter fun route => isFixtureName (route.getLastD "")

/-- A fixture is picked with its category. -/
theorem paths_filter_grouped (path : String) (wanted : String → Bool) (pairs : List (String × Route)) :
    paths ((grouped path pairs).filter fun category => wanted category.name) =
      (pairs.filter fun pair => wanted pair.1).map fun pair => joinPath path pair.2 := by
  induction pairs with
  | nil => rfl
  | cons pair pairs ih =>
    obtain ⟨name, route⟩ := pair
    rw [grouped]
    rcases hgroups : grouped path pairs with _ | ⟨category, categories⟩
    · rw [hgroups] at ih
      cases hwanted : wanted name <;> simp [paths, hwanted, ← ih]
    · rw [hgroups] at ih
      dsimp only
      split
      · rename_i hname
        subst hname
        cases hwanted : wanted category.name <;>
          simp [paths, hwanted] at ih ⊢ <;> simp [ih]
      · cases hwanted : wanted name <;> simp [paths, hwanted] at ih ⊢ <;> simp [ih]

/-- The fixtures of the categories that are picked are those in their folders, once each. -/
theorem paths_filter_ofDirectory (files : Files) (path : String) (wanted : String → Bool) :
    (paths ((ofDirectory files path).filter fun category => wanted category.name)).Perm
      (((fixtures files path).filter fun route => wanted (categoryOf route)).map (joinPath path)) := by
  rw [ofDirectory, paths_filter_grouped]
  have hsorted := List.mergeSort_perm
    (((fixtures files path).mergeSort routeLe).map fun route => (categoryOf route, route))
    fun a b => decide (a.1 ≤ b.1)
  have hroutes := List.mergeSort_perm (fixtures files path) routeLe
  refine ((hsorted.filter _).map _).trans ?_
  rw [List.filter_map, List.map_map]
  exact (hroutes.filter _).map _

/-- No fixtures stand below a file. -/
theorem ofDirectory_of_isFile {files : Files} {path : String} (hfile : files.isFile path = true) :
    ofDirectory files path = [] := by
  have hbelow : files.below path = [] := by
    rw [Files.isFile] at hfile
    rw [Files.below]
    split at hfile
    · rename_i hplace
      rw [hplace]
    · simp at hfile
  simp [ofDirectory, hbelow, grouped]

-- ---------------------------------------------------------------------------
-- Running them
-- ---------------------------------------------------------------------------

/-- The report on the fixtures that run, below the names of their categories. -/
def report (files : Files) (programs : Programs) (base : Config) (colored : Bool) (suite : Suite) :
    List String :=
  suite.flatMap fun category =>
    ["", paint colored "1" category.label] ++
      category.paths.map fun path => reportLine colored (runFile files programs base path)

/-- Each fixture of a suite runs once, and the exit code says whether all of them pass. -/
theorem run_eq (files : Files) (programs : Programs) (base : Config) (colored : Bool) (suite : Suite) :
    let verdicts := suite.paths.map (runFile files programs base)
    run files programs base colored true suite =
      (if verdicts.all fun verdict => verdict.failure.isNone then 0 else 1,
        report files programs base colored suite ++ closingLines colored verdicts) := by
  have hverdicts : suite.flatMap ((fun group : String × List Verdict => group.2) ∘
      fun category => (category.label, category.paths.map (runFile files programs base))) =
      suite.paths.map (runFile files programs base) := by
    rw [paths, List.map_flatMap]
    rfl
  rw [run]
  simp only [List.flatMap_map, Function.comp_def, if_true, List.map_map] at hverdicts ⊢
  rw [hverdicts]
  rfl

end Suite

namespace CommandLine

open Suite

/-- A run of the fixtures that are asked for, without warnings if each request is answered. -/
theorem livedoc_test_eq {files : Files} {arguments requests : List String} {path : String}
    {source : SessionSource} {colored : Bool} {config : Config}
    (hread : readInvocation arguments = .ok ⟨.test path requests false source, colored⟩)
    (hconfig : sessionConfig files source = .ok config) (hrequests : requests ≠ [])
    (hanswered : ∀ request ∈ requests, ∃ category ∈ ofDirectory files path,
      isAskedFor category request = true) :
    livedoc files arguments =
      let (code, lines) := run files (programsOf files) config colored true
        (select (ofDirectory files path) requests)
      ⟨code, "", printed lines, files⟩ := by
  obtain ⟨request, hrequest⟩ := List.exists_mem_of_ne_nil requests hrequests
  obtain ⟨category, hcategory, hasked⟩ := hanswered request hrequest
  have hsuite : ofDirectory files path ≠ [] := List.ne_nil_of_mem hcategory
  have hfile : files.isFile path = false := by
    rw [← Bool.not_eq_true]
    exact fun hfile => hsuite (ofDirectory_of_isFile hfile)
  have hchosen : select (ofDirectory files path) requests ≠ [] := by
    apply List.ne_nil_of_mem (a := category)
    rw [select_eq _ hrequests]
    exact List.mem_filter.2 ⟨hcategory, List.any_eq_true.2 ⟨request, hrequest, hasked⟩⟩
  rw [livedoc, hread]
  simp [runCommand, hconfig, hfile, hsuite, hchosen, warnings_eq_nil_iff.2 hanswered, bind, Except.bind,
    pure, Except.pure]

/-- **Categories.** If every request is the label of a category, slashes around it apart, and is not that of the
top directory, then the fixtures in the folders of these categories run, once each, and no others; and the
command succeeds exactly if all of them pass. -/
theorem livedoc_test {files : Files} {arguments requests : List String} {path : String}
    {source : SessionSource} {colored : Bool} {config : Config}
    (hread : readInvocation arguments = .ok ⟨.test path requests false source, colored⟩)
    (hconfig : sessionConfig files source = .ok config) (hrequests : requests ≠ [])
    (hnamed : ∀ request ∈ requests, ∃ category ∈ ofDirectory files path, category.IsNamedBy request)
    (hplain : ∀ request ∈ requests, ∀ category ∈ ofDirectory files path,
      category.IsNamedBy request → category.IsPlain) :
    ∃ wanted : String → Bool,
      (∀ folder, wanted folder = true ↔ ∃ category ∈ ofDirectory files path,
        (∃ request ∈ requests, category.IsNamedBy request) ∧ IsWithin folder category.name) ∧
      let chosen : Suite := (ofDirectory files path).filter fun category => wanted category.name
      let verdicts := chosen.paths.map (runFile files (programsOf files) config)
      chosen.paths.Perm (((fixtures files path).filter fun route => wanted (categoryOf route)).map
        (joinPath path)) ∧
      livedoc files arguments = ⟨if verdicts.all fun verdict => verdict.failure.isNone then 0 else 1, "",
        printed (report files (programsOf files) config colored chosen ++ closingLines colored verdicts),
        files⟩ ∧
      ((livedoc files arguments).code = 0 ↔ ∀ verdict ∈ verdicts, verdict.failure = none) := by
  refine ⟨isWanted requests, ?_, ?_⟩
  · intro folder
    simp only [isWanted, List.any_eq_true, isAskedFor_iff]
    constructor
    · rintro ⟨request, hrequest, hwithin⟩
      obtain ⟨category, hcategory, hname⟩ := hnamed request hrequest
      have hlabel := trimSlashes_of_isNamedBy (hplain request hrequest category hcategory hname) hname
      exact ⟨category, hcategory, ⟨request, hrequest, hname⟩, hlabel ▸ hwithin⟩
    · rintro ⟨category, hcategory, ⟨request, hrequest, hname⟩, hwithin⟩
      have hlabel := trimSlashes_of_isNamedBy (hplain request hrequest category hcategory hname) hname
      exact ⟨request, hrequest, hlabel ▸ hwithin⟩
  · intro chosen verdicts
    have hanswered : ∀ request ∈ requests, ∃ category ∈ ofDirectory files path,
        isAskedFor category request = true := fun request hrequest =>
      let ⟨category, hcategory, hname⟩ := hnamed request hrequest
      ⟨category, hcategory,
        isAskedFor_of_isNamedBy (hplain request hrequest category hcategory hname) hname⟩
    have hrun := livedoc_test_eq hread hconfig hrequests hanswered
    rw [select_eq _ hrequests, Suite.run_eq] at hrun
    refine ⟨paths_filter_ofDirectory files path _, hrun, ?_⟩
    rw [hrun]
    dsimp only
    rw [ite_eq_left_iff]
    simp [verdicts, chosen]

/-- Three folders of one fixture each; the name of the last goes on where that of the first ends. -/
def nested : Files :=
  let fixture := Text.Utf8.encode "---\n\n---\nHello.\n".toList
  ⟨[(["t", "a", "m.test.md"], fixture), (["t", "a", "sub", "n.test.md"], fixture),
    (["t", "ab", "p.test.md"], fixture)]⟩

theorem ofDirectory_nested : ofDirectory nested "t" =
    [⟨"a", ["t/a/m.test.md"]⟩, ⟨"a/sub", ["t/a/sub/n.test.md"]⟩, ⟨"ab", ["t/ab/p.test.md"]⟩] := by
  have hfixtures : fixtures nested "t" =
      [["a", "m.test.md"], ["a", "sub", "n.test.md"], ["ab", "p.test.md"]] := by cbv
  have hroutes : (fixtures nested "t").mergeSort routeLe = fixtures nested "t" := by
    rw [hfixtures]
    exact List.mergeSort_of_pairwise (by decide)
  have hnames : (fixtures nested "t").map (fun route => (categoryOf route, route)) =
      [("a", ["a", "m.test.md"]), ("a/sub", ["a", "sub", "n.test.md"]), ("ab", ["ab", "p.test.md"])] := by
    rw [hfixtures]
    cbv
  rw [fixtures] at hroutes hnames
  rw [ofDirectory, hroutes, hnames, List.mergeSort_of_pairwise (by decide)]
  cbv

/-- A folder and one in it: the fixture of the inner one runs once, that of a sibling whose name begins alike
not at all. -/
theorem livedoc_test_overlapping :
    let arguments := ["test", "t", "--no-color", "-c", "a/", "-c", "/a/sub"]
    let requests := ["a/", "/a/sub"]
    readInvocation arguments = .ok ⟨.test "t" requests false ⟨none, none⟩, false⟩ ∧
      sessionConfig nested ⟨none, none⟩ = .ok Config.default ∧ requests ≠ [] ∧
      (∀ request ∈ requests, ∃ category ∈ ofDirectory nested "t", category.IsNamedBy request) ∧
      (∀ request ∈ requests, ∀ category ∈ ofDirectory nested "t",
        category.IsNamedBy request → category.IsPlain) ∧
      ((livedoc nested arguments).code = 0 ↔ ∀ path ∈ ["t/a/m.test.md", "t/a/sub/n.test.md"],
        (runFile nested (programsOf nested) Config.default path).failure = none) := by
  intro arguments requests
  have hread : readInvocation arguments = .ok ⟨.test "t" requests false ⟨none, none⟩, false⟩ := by cbv
  have hconfig : sessionConfig nested ⟨none, none⟩ = .ok Config.default := rfl
  have hnamed : ∀ request ∈ requests, ∃ category ∈ ofDirectory nested "t", category.IsNamedBy request := by
    simp only [requests, ofDirectory_nested, List.forall_mem_cons]
    exact ⟨⟨⟨"a", ["t/a/m.test.md"]⟩, by simp, 0, 1, by cbv⟩,
      ⟨⟨"a/sub", ["t/a/sub/n.test.md"]⟩, by simp, 1, 0, by cbv⟩, by simp⟩
  have hplain : ∀ request ∈ requests, ∀ category ∈ ofDirectory nested "t",
      category.IsNamedBy request → category.IsPlain := by
    intro request _ category hcategory _
    rw [ofDirectory_nested] at hcategory
    simp only [List.mem_cons, List.not_mem_nil, or_false] at hcategory
    rcases hcategory with rfl | rfl | rfl <;> exact ⟨by decide, by decide, by decide⟩
  obtain ⟨wanted, hwanted, -, -, hcode⟩ := livedoc_test hread hconfig (by simp [requests]) hnamed hplain
  refine ⟨hread, hconfig, by simp [requests], hnamed, hplain, ?_⟩
  have hwithin : wanted "a" = true ∧ wanted "a/sub" = true ∧ ¬ wanted "ab" = true := by
    have houter : (⟨"a", ["t/a/m.test.md"]⟩ : Category) ∈ ofDirectory nested "t" ∧
        ∃ request ∈ requests, Category.IsNamedBy ⟨"a", ["t/a/m.test.md"]⟩ request :=
      ⟨by simp [ofDirectory_nested], "a/", by simp [requests], 0, 1, by cbv⟩
    refine ⟨(hwanted _).mpr ⟨_, houter.1, houter.2, List.prefix_rfl⟩,
      (hwanted _).mpr ⟨_, houter.1, houter.2, by rw [IsWithin]; decide⟩, fun hsibling => ?_⟩
    obtain ⟨category, hcategory, ⟨request, hrequest, hname⟩, hwithin⟩ := (hwanted _).mp hsibling
    have hlabel := trimSlashes_of_isNamedBy (hplain request hrequest category hcategory hname) hname
    rw [← hlabel, IsWithin] at hwithin
    simp only [requests, List.mem_cons, List.not_mem_nil, or_false] at hrequest
    rcases hrequest with rfl | rfl <;> revert hwithin <;> decide
  rw [hcode, ofDirectory_nested]
  simp [hwithin, paths]

/-- The label of the top directory picks none of the fixtures that stand there, and the command fails. -/
theorem livedoc_test_root :
    let files : Files := ⟨[(["t", "a.test.md"], Text.Utf8.encode "---\n\n---\nHello.\n".toList)]⟩
    let category : Category := ⟨"", ["t/a.test.md"]⟩
    ofDirectory files "t" = [category] ∧ category.IsNamedBy "(root)" ∧
      select (ofDirectory files "t") ["(root)"] = [] ∧
      (livedoc files ["test", "t", "--no-color", "-c", "(root)"]).code = 1 := by
  intro files category
  have hsuite : ofDirectory files "t" = [category] := by cbv
  have hread : readInvocation ["test", "t", "--no-color", "-c", "(root)"] =
    .ok ⟨.test "t" ["(root)"] false ⟨none, none⟩, false⟩ := by cbv
  have hfile : files.isFile "t" = false := by cbv
  have hconfig : sessionConfig files ⟨none, none⟩ = .ok Config.default := rfl
  have hselect : select [category] ["(root)"] = [] := by cbv
  refine ⟨hsuite, ⟨0, 0, by cbv⟩, by rw [hsuite, hselect], ?_⟩
  rw [livedoc, hread]
  simp [runCommand, hconfig, hfile, hsuite, hselect, bind, Except.bind, pure, Except.pure]

end CommandLine

end Literate
