import Literate.Execution.Dispatch
import Literate.Proofs.Execution.FragmentGrammar
import Literate.Proofs.Execution.OneLine
import Literate.Proofs.Text.Percent

/-!
# Addresses of images that are run

The escapes in the address of an image are resolved, the first fragment in the text that comes out is run and
gives way to what it printed, and all of the text is written as an address again. Read as a text, the address
has changed in the place of the fragment and nowhere else (`dispatch_image_address`). Its characters are
another matter. What stands around the fragment was resolved and written with the rest, and only escapes of the
kind that is written come back (`rest_of_address_iff`): an escape for a letter comes back as the letter, and
one for a slash as a slash, which parts the address in another place.
-/

namespace Literate

namespace Dispatch

open Text.Percent (decode toList_decode encode decodeBytes IsAddress IsTextAddress IsKept)

theorem fragment?_eq_some_iff {text : String} {fragment : Fragment} :
    fragment? text = some fragment ↔ Fragment.find? text = some fragment ∧
      fragment.hasTag "python" = true ∧ fragment.hasTag "noexec" = false := by
  simp [fragment?, Option.filter_eq_some_iff]

theorem fragment?_eq_none_iff {text : String} :
    fragment? text = none ↔ ∀ fragment, Fragment.find? text = some fragment →
      fragment.hasTag "python" = true → fragment.hasTag "noexec" = true := by
  simp [fragment?, Option.filter_eq_none_iff]

-- ---------------------------------------------------------------------------
-- The address as a text
-- ---------------------------------------------------------------------------

/-- What of an answer stands in the address in the place of the fragment. -/
def addressValue (answer : String) : List Char :=
  (Text.trimBlanks answer.toList).filter fun c => !isQuote c

variable {σ : Type} (launcher : Launcher σ) (shorthands : List String) {dest : String} (title : String)
  (alt : List Inline) {fragment : Fragment}

theorem dispatch_image_some (h : fragment? (decode dest) = some fragment) :
    dispatch launcher shorthands (.inline (.image dest title alt)) =
      (fun answer => Action.keep
        (.inline (.image (encode (fragment.splice (addressValue answer))) title alt))) <$>
          Executor.evaluate launcher (String.ofList fragment.code) := by
  have hrespond : ∀ answer, respond shorthands answer (.inline (.image dest title alt)) =
      .keep (.inline (.image (encode (fragment.splice (addressValue answer))) title alt)) := by
    intro answer
    rw [respond, splice, h]
    rfl
  rw [dispatch, batch?, h]
  simp only [Option.map_some, bind_pure_comp, hrespond]
  rfl

theorem dispatch_image_none (h : fragment? (decode dest) = none) :
    dispatch launcher shorthands (.inline (.image dest title alt)) =
      pure (.keep (.inline (.image dest title alt))) := by
  rw [dispatch, batch?, h]
  rfl

/-- **The address of an image.** If the first fragment in it is to run, the address that it gets for an answer
spells the text it spelled with the answer in the place of the bytes of the fragment, without the blanks at
the ends of the answer and without quotes. It is written with plain characters and escapes only. In every
other case the image stays as it is, and nothing is run. -/
theorem dispatch_image_address (dest : String) :
    let text := decode dest
    let node : Node := .inline (.image dest title alt)
    (∀ fragment, Fragment.find? text = some fragment → fragment.hasTag "python" = true →
      fragment.hasTag "noexec" = false →
      ∃ rewritten : String → String,
        dispatch launcher shorthands node =
          (fun answer => Action.keep (.inline (.image (rewritten answer) title alt))) <$>
            Executor.evaluate launcher (String.ofList fragment.code) ∧
        ∀ answer,
          Text.Utf8.replace? (fragment.span text).1 (fragment.span text).2 (addressValue answer)
            text.toList = some (decode (rewritten answer)).toList ∧
          decodeBytes (rewritten answer).toList = Text.Utf8.encode (decode (rewritten answer)).toList ∧
          IsAddress (rewritten answer).toList) ∧
    ((∀ fragment, Fragment.find? text = some fragment → fragment.hasTag "python" = true →
      fragment.hasTag "noexec" = true) →
      dispatch launcher shorthands node = pure (.keep node)) := by
  intro text node
  constructor
  · intro fragment hfind hpython hnoexec
    have hfragment := fragment?_eq_some_iff.mpr ⟨hfind, hpython, hnoexec⟩
    refine ⟨_, dispatch_image_some launcher shorthands title alt hfragment, fun answer => ⟨?_, ?_, ?_⟩⟩
    · rw [Text.Percent.decode_encode]
      exact Fragment.replace?_span hfind _
    · rw [Text.Percent.decodeBytes_encode, Text.Percent.decode_encode]
    · exact Text.Percent.isAddress_encode _
  · intro hother
    exact dispatch_image_none launcher shorthands title alt (fragment?_eq_none_iff.mpr hother)

/-- The name of a plot with a blank in it; and an address without code, whose escape stays. -/
theorem dispatch_image_address_plot :
    let dest := "plots/%60name()%60%7B.python%7D.png"
    let fragment : Fragment := ⟨"plots/".toList, "name()".toList, ["python".toList], ".png".toList⟩
    Fragment.find? (decode dest) = some fragment ∧ fragment.hasTag "python" = true ∧
      fragment.hasTag "noexec" = false ∧
      (∃ rewritten : String → String,
        dispatch .silent [] (.inline (.image dest "" [])) =
          (fun answer => Action.keep (.inline (.image (rewritten answer) "" []))) <$>
            Executor.evaluate .silent "name()" ∧
        decode (rewritten "'fig 1'\n") = "plots/fig 1.png" ∧
        IsAddress (rewritten "'fig 1'\n").toList) ∧
      dispatch .silent [] (.inline (.image "plots/a%20b.png" "" [])) =
        pure (.keep (.inline (.image "plots/a%20b.png" "" []))) := by
  intro dest fragment
  have hfind : Fragment.find? (decode dest) = some fragment := by cbv
  have hpython : fragment.hasTag "python" = true := by decide +kernel
  have hnoexec : fragment.hasTag "noexec" = false := by decide +kernel
  obtain ⟨rewritten, hdispatch, hrewritten⟩ :=
    (dispatch_image_address .silent [] "" [] dest).1 fragment hfind hpython hnoexec
  refine ⟨hfind, hpython, hnoexec, ⟨rewritten, hdispatch, ?_, (hrewritten _).2.2⟩, ?_⟩
  · have hreplaced := (hrewritten "'fig 1'\n").1
    rw [Fragment.replace?_span hfind] at hreplaced
    rw [← String.toList_inj, ← Option.some.inj hreplaced]
    decide +kernel
  · have hnone : Fragment.find? (decode "plots/a%20b.png") = none := by cbv
    refine (dispatch_image_address .silent [] "" [] "plots/a%20b.png").2 fun fragment hfound => ?_
    rw [hnone] at hfound
    cases hfound

-- ---------------------------------------------------------------------------
-- The address as it is written
-- ---------------------------------------------------------------------------

section

variable {front middle : String}

/-- An address in three parts spells three texts one after another, if the middle part ends in a brace. -/
theorem decode_append (hfront : IsTextAddress front) {cs : List Char}
    (hmiddle : (decode middle).toList = cs ++ ['\x7d']) (back : String) :
    decode (front ++ middle ++ back) = decode front ++ decode middle ++ decode back := by
  rw [toList_decode] at hmiddle
  obtain ⟨bytes, hbytes⟩ :=
    Text.Utf8.exists_of_decodeLossy_ascii (by decide) (by decide) hmiddle
  have hlast : (decodeBytes middle.toList).getLast? = some 0x7D := by
    rw [hbytes]
    exact List.getLast?_concat
  have hall : decodeBytes (front ++ middle ++ back).toList =
      Text.Utf8.encode (decode front).toList ++ ((bytes ++ [0x7D]) ++ decodeBytes back.toList) := by
    rw [String.toList_append, String.toList_append, List.append_assoc,
      hfront.is_address.decodeBytes_append, Text.Percent.decodeBytes_append hlast, hfront.decodeBytes_eq,
      hbytes]
    rfl
  rw [← String.toList_inj, toList_decode, hall, Text.Utf8.decodeLossy_encode_append,
    Text.Utf8.decodeLossy_append_ascii (by decide), String.toList_append, String.toList_append,
    toList_decode middle, hbytes, toList_decode back, List.append_assoc]
  rfl

/-- A fragment that makes up the middle part of an address is the first in the address if no backtick comes
before it. -/
theorem fragment?_append (hfront : IsTextAddress front) (htick : '\x60' ∉ (decode front).toList)
    (hmiddle : fragment? (decode middle) = some fragment) (hbefore : fragment.before = [])
    (hafter : fragment.after = []) (back : String) :
    fragment? (decode (front ++ middle ++ back)) =
      some { fragment with before := (decode front).toList, after := (decode back).toList } := by
  obtain ⟨hfind, hpython, hnoexec⟩ := fragment?_eq_some_iff.mp hmiddle
  obtain ⟨s, hfirst, -, hcode, htags⟩ := Fragment.exists_spelling_of_find? hfind
  have hspelled : (decode middle).toList = s.text := by
    rw [hfirst.stands, hbefore, hafter, List.nil_append, List.append_nil]
  obtain ⟨cs, hbrace⟩ := s.exists_text_eq
  have hfound := Fragment.find?_append htick s (decode back).toList
  rw [decode_append hfront (hspelled.trans hbrace)]
  have htext : decode front ++ decode middle ++ decode back =
      String.ofList ((decode front).toList ++ (s.text ++ (decode back).toList)) := by
    rw [← String.toList_inj, String.toList_ofList, String.toList_append, String.toList_append, hspelled,
      List.append_assoc]
  refine fragment?_eq_some_iff.mpr ⟨?_, hpython, hnoexec⟩
  rw [htext, hfound, hcode, htags]

end

theorem encode_splice (fragment : Fragment) (value : List Char) :
    encode (fragment.splice value) = encode (String.ofList fragment.before) ++ encode (String.ofList value) ++
      encode (String.ofList fragment.after) := by
  rw [Fragment.splice, String.ofList_append, String.ofList_append, Text.Percent.encode_append,
    Text.Percent.encode_append]

/-- Parts that do not become longer stay as they are if they do together. -/
theorem append_eq_append_iff {front front' back back' middle : List Char}
    (hfront : front.length ≤ front'.length) (hback : back.length ≤ back'.length) :
    front ++ middle ++ back = front' ++ middle ++ back' ↔ front = front' ∧ back = back' := by
  refine ⟨fun heq => ?_, fun ⟨hfront, hback⟩ => by rw [hfront, hback]⟩
  have hlength := congrArg List.length heq
  simp only [List.length_append] at hlength
  rw [List.append_assoc, List.append_assoc] at heq
  obtain ⟨hfront, hrest⟩ := List.append_inj heq (by omega)
  exact ⟨hfront, List.append_cancel_left hrest⟩

/-- **The rest of an address.** A fragment that is run stands in the middle of an address, with plain characters
and escapes that spell texts on both sides, no backtick in the first. The address that it gets has these texts
on both sides of the answer, written as addresses. They have the same characters as before exactly if all their
escapes have digits in upper case and stand for bytes that are reserved. -/
theorem rest_of_address_iff {front middle back : String} (hfront : IsTextAddress front)
    (hback : IsTextAddress back) (htick : '\x60' ∉ (decode front).toList)
    (hmiddle : fragment? (decode middle) = some fragment) (hbefore : fragment.before = [])
    (hafter : fragment.after = []) :
    ∃ rewritten : String → String,
      dispatch launcher shorthands (.inline (.image (front ++ middle ++ back) title alt)) =
        (fun answer => Action.keep (.inline (.image (rewritten answer) title alt))) <$>
          Executor.evaluate launcher (String.ofList fragment.code) ∧
      ∀ answer, let value := encode (String.ofList (addressValue answer))
        rewritten answer = encode (decode front) ++ value ++ encode (decode back) ∧
          (rewritten answer = front ++ value ++ back ↔ IsKept front.toList ∧ IsKept back.toList) := by
  have hdispatch := dispatch_image_some launcher shorthands title alt
    (fragment?_append hfront htick hmiddle hbefore hafter back)
  refine ⟨_, hdispatch, fun answer => ?_⟩
  have hwritten := encode_splice
    { fragment with before := (decode front).toList, after := (decode back).toList } (addressValue answer)
  rw [String.ofList_toList, String.ofList_toList] at hwritten
  refine ⟨hwritten, ?_⟩
  rw [hwritten, ← String.toList_inj]
  simp only [String.toList_append]
  rw [append_eq_append_iff hfront.length_encode_decode_le hback.length_encode_decode_le,
    String.toList_inj, String.toList_inj, hfront.encode_decode_iff, hback.encode_decode_iff]

/-- A percent sign that is an escape stays one, and so does a blank behind the fragment. -/
theorem rest_of_address_iff_percent :
    let fragment : Fragment := ⟨[], "f()".toList, ["python".toList], []⟩
    IsTextAddress "100%25/" ∧ IsTextAddress "%20b" ∧ '\x60' ∉ (decode "100%25/").toList ∧
      fragment? (decode "%60f()%60%7B.python%7D") = some fragment ∧
      ∃ rewritten : String → String,
        dispatch .silent [] (.inline (.image "100%25/%60f()%60%7B.python%7D%20b" "" [])) =
          (fun answer => Action.keep (.inline (.image (rewritten answer) "" []))) <$>
            Executor.evaluate .silent "f()" ∧
        rewritten "'2'\n" = "100%25/2%20b" := by
  intro fragment
  have hfront : IsTextAddress "100%25/" :=
    ⟨.plain rfl (.plain rfl (.plain rfl (.escape rfl (.plain rfl .nil)))), "100%/".toList, by cbv⟩
  have hback : IsTextAddress "%20b" := ⟨.escape rfl (.plain rfl .nil), " b".toList, by cbv⟩
  have htick : '\x60' ∉ (decode "100%25/").toList := by
    rw [show decode "100%25/" = "100%/" by cbv]
    decide +kernel
  have hmiddle : fragment? (decode "%60f()%60%7B.python%7D") = some fragment := by cbv
  obtain ⟨rewritten, hdispatch, hrewritten⟩ :=
    rest_of_address_iff .silent [] "" [] hfront hback htick hmiddle rfl rfl
  refine ⟨hfront, hback, htick, hmiddle, rewritten, hdispatch, ?_⟩
  rw [(hrewritten "'2'\n").2.mpr (by decide +kernel)]
  decide +kernel

/-- An escape for a slash in front of a fragment does not come back: the slash does. -/
theorem not_rest_of_address :
    let dest := "a%2Fb/" ++ "%60x%60%7B.python%7D" ++ ".png"
    IsTextAddress "a%2Fb/" ∧ IsTextAddress ".png" ∧ '\x60' ∉ (decode "a%2Fb/").toList ∧
      fragment? (decode "%60x%60%7B.python%7D") = some ⟨[], ['x'], ["python".toList], []⟩ ∧
      batch? [] (.inline (.image dest "" [])) = some (.expression "x") ∧
      respond [] "1" (.inline (.image dest "" [])) = .keep (.inline (.image "a/b/1.png" "" [])) ∧
      "a/b/1.png" ≠ "a%2Fb/" ++ encode (String.ofList (addressValue "1")) ++ ".png" := by
  intro dest
  refine ⟨⟨.plain rfl (.escape rfl (.plain rfl (.plain rfl .nil))), "a/b/".toList, by cbv⟩,
    ⟨.plain rfl (.plain rfl (.plain rfl (.plain rfl .nil))), ".png".toList, by cbv⟩, ?_, by cbv, by cbv,
    by cbv, by decide +kernel⟩
  rw [show decode "a%2Fb/" = "a/b/" by cbv]
  decide +kernel

end Dispatch

end Literate
