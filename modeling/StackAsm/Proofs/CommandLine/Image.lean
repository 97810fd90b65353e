import StackAsm.CommandLine.Command
import StackAsm.Proofs.CommandLine.Arguments
import StackAsm.Proofs.CommandLine.Directory
import StackAsm.Proofs.Diagnosis
import StackAsm.Proofs.Image

set_option autoImplicit false

/-!
# An image does for its sources

A command does with a program what its options say, wherever the program is from. So a command with
an image does what the same command with its sources does, if the image yields the program that the
sources resolve to. It does: lines and columns are no longer than the file they are in, and writing
the image leaves the sources as they are, wherever in the tree of files they and the image are.

## Main definitions

* `StackAsm.CommandLine.Sources` — files that are read as the tokens of a program.

## Main results

* `StackAsm.CommandLine.location_of_readSources` — the places in sources have room in an image.
* `StackAsm.CommandLine.performOn_congr` — what is done depends on the program alone.
* `StackAsm.CommandLine.invoke_emitImage` — an image is written for sources that resolve.
* `StackAsm.CommandLine.invoke_image_eq_invoke_sources` — the image does for the sources.
-/

namespace StackAsm

/-! ## Places and lengths -/

/-- A text has no more characters than bytes. -/
lemma Utf8.length_toList_le (text : String) : text.toList.length ≤ (encode text).length := by
  have each : ∀ c ∈ text.toList, 1 ≤ (String.utf8EncodeChar c).length := fun c _ => by
    rw [String.length_utf8EncodeChar]
    exact c.utf8Size_pos
  have sum := List.length_le_sum_of_one_le
    (text.toList.map fun c => (String.utf8EncodeChar c).length) (List.forall_mem_map.2 each)
  rwa [List.length_map, ← List.length_flatMap] at sum

namespace Source

/-- Lines and columns are counted by the characters in front of them. -/
lemma locate_le (file : String) (before : List Char) :
    (locate file before).line ≤ before.length + 1 ∧
      (locate file before).column ≤ before.length + 1 := by
  have lines : before.count '\n' ≤ before.length := List.count_le_length
  have columns := (List.rtakeWhile_suffix (· ≠ '\n') before).length_le
  simp only [locate]
  omega

/-- A token is in the file that it is read from, not further behind than the file is long. -/
lemma location_of_tokens {file text : String} {tokens : List SourceToken}
    (read : Source.tokens file text = .ok tokens) {t : SourceToken} (mem : t ∈ tokens) :
    t.location.file = file ∧ t.location.line ≤ text.toList.length + 1 ∧
      t.location.column ≤ text.toList.length + 1 := by
  have renders : Renders file [] text.toList tokens := renders_of_tokensFrom read
  obtain ⟨before, x, behind, same, place, -⟩ := renders.exists_text (by simp [Apart]) mem
  rw [List.nil_append] at same
  have bounds := locate_le file before
  rw [place, same, List.length_append, List.length_append]
  refine ⟨rfl, ?_, ?_⟩ <;> omega

end Source

namespace CommandLine

variable {read read' : FileReader} {files : List String} {tokens : List SourceToken}

/-! ## Reading sources -/

/-- Sources are read exactly if the first one is and the others are. -/
lemma readSources_cons_eq_ok {path : String} {paths : List String} :
    readSources read (path :: paths) = .ok tokens ↔
      ∃ bytes text these more, read path = .ok bytes ∧ Utf8.decode? bytes = some text ∧
        Source.tokens path text = .ok these ∧ readSources read paths = .ok more ∧
        tokens = these ++ more := by
  rw [readSources]
  cases read path with
  | error fault => simp [Except.mapError, bind, Except.bind]
  | ok bytes =>
    cases decoded : Utf8.decode? bytes with
    | none => simp [Except.mapError, bind, Except.bind, decoded]
    | some text =>
      cases taken : Source.tokens path text with
      | error e => simp [Except.mapError, bind, Except.bind, decoded, taken]
      | ok these =>
        cases readSources read paths <;>
          simp [Except.mapError, bind, Except.bind, pure, Except.pure, decoded, taken, eq_comm]

/-- Sources are read alike where the files hold the same. -/
lemma readSources_congr (same : ∀ path ∈ files, ∀ bytes, read path = .ok bytes →
      read' path = .ok bytes) (sources : readSources read files = .ok tokens) :
    readSources read' files = .ok tokens := by
  induction files generalizing tokens with
  | nil => exact sources
  | cons path paths ih =>
    rw [List.forall_mem_cons] at same
    obtain ⟨bytes, text, these, more, found, decoded, taken, others, rfl⟩ :=
      readSources_cons_eq_ok.1 sources
    exact readSources_cons_eq_ok.2
      ⟨bytes, text, these, more, same.1 bytes found, decoded, taken, ih same.2 others, rfl⟩

/-- **The places in sources** are in one of the files, not further behind than it is long. -/
theorem location_of_readSources (sources : readSources read files = .ok tokens) {t : SourceToken}
    (mem : t ∈ tokens) :
    ∃ path ∈ files, ∃ bytes, read path = .ok bytes ∧ t.location.file = path ∧
      t.location.line ≤ bytes.length + 1 ∧ t.location.column ≤ bytes.length + 1 := by
  induction files generalizing tokens with
  | nil =>
    cases sources
    cases mem
  | cons path paths ih =>
    obtain ⟨bytes, text, these, more, found, decoded, taken, others, rfl⟩ :=
      readSources_cons_eq_ok.1 sources
    rcases List.mem_append.1 mem with mem | mem
    · have place := Source.location_of_tokens taken mem
      have length := Utf8.length_toList_le text
      rw [Utf8.encode_of_decode? decoded] at length
      exact ⟨path, List.mem_cons_self .., bytes, found, place.1, by omega, by omega⟩
    · obtain ⟨path', mem, place⟩ := ih others mem
      exact ⟨path', List.mem_cons_of_mem _ mem, place⟩

/-- The files are sources that are read as the tokens of a program. No name and no file is longer
than a number of 64 bits can tell. -/
structure Sources (read : FileReader) (files : List String) (p : Program) : Prop where
  /-- There is a file. -/
  nonempty : files ≠ []
  /-- No file is an image. -/
  names : ∀ path ∈ files, NamesFile path ∧ ¬ isImage path
  /-- All of them are read, and resolve together. -/
  resolve : ∃ tokens, readSources read files = .ok tokens ∧ Resolution.resolve tokens 0 = .ok p
  /-- The lengths of the names, in bytes. -/
  nameLength : ∀ path ∈ files, (Utf8.encode path).length < 2 ^ 64
  /-- The lengths of the files, with the first line and column counted from 1. -/
  fileLength : ∀ path ∈ files, ∀ bytes, read path = .ok bytes → bytes.length + 1 < 2 ^ 64

section Sources

variable {p : Program} (sources : Sources read files p)
include sources

/-- A program of sources has room in an image. -/
lemma Sources.sized : p.Sized := by
  obtain ⟨tokens, read, resolved⟩ := sources.resolve
  have wf := Resolution.wellFormed_of_resolve resolved
  have short : p.instructions.size < 2 ^ 64 := by
    have fits := wf.fits
    have start := Word.inRange_iff.1 (Word.inRange_toInt p.start)
    rw [Int64.toInt_maxValue, Program.length] at fits
    omega
  have place : ∀ l ∈ p.locations.toList, (Utf8.encode l.file).length < 2 ^ 64 ∧
      l.line < 2 ^ 64 ∧ l.column < 2 ^ 64 := by
    rw [Resolution.locations_of_resolve resolved, List.forall_mem_map]
    intro t mem
    obtain ⟨path, mem, bytes, found, file, line, column⟩ :=
      location_of_readSources read (List.mem_of_mem_filter mem)
    have length := sources.fileLength path mem bytes found
    exact ⟨file ▸ sources.nameLength path mem, by omega, by omega⟩
  exact ⟨short, wf.tables ▸ short, fun l mem => (place l mem).1, fun l mem => (place l mem).2.1,
    fun l mem => (place l mem).2.2⟩

/-- **The image of sources is read as their program.** -/
theorem Sources.ofImage_eq : Program.ofImage p.image = .ok p := by
  obtain ⟨tokens, -, resolved⟩ := sources.resolve
  have wf := Resolution.wellFormed_of_resolve resolved
  have fits := Program.endAddress?_ne_none_iff.2 wf.fits
  rw [sources.sized.ofImage_image_eq, Program.checked, if_neg (not_not_intro wf.tables),
    if_neg fits]

end Sources

/-! ## Doing the same with the same program -/

/-- Sources that resolve hold the program that they resolve to. -/
lemma exists_content {p : Program} (plain : ∀ path ∈ files, ¬ isImage path)
    (sources : readSources read files = .ok tokens)
    (resolved : Resolution.resolve tokens 0 = .ok p) :
    ∃ content, readFiles read files = .ok content ∧ load content = .ok p := by
  refine ⟨.tokens tokens, ?_, by rw [load, resolved]; rfl⟩
  rw [readFiles, List.find?_eq_none.2 plain, sources]
  rfl

/-- **What is done depends on the program alone**, unless its tokens are asked for. -/
theorem performOn_congr {content content' : Content} (same : load content = load content')
    {options : Options} (other : options.action ≠ .tokens) (fuel : Nat) (machine : Machine)
    (files files' : List String) :
    performOn fuel { options with files := files } machine content =
      performOn fuel { options with files := files' } machine content' := by
  simp only [performOn, withProgram, same]
  -- only the message about the tokens of an image names a file
  split
  · exact absurd ‹_› other
  all_goals rfl

/-- Input files that hold the same program are treated alike by every action but the one that
shows tokens. -/
lemma perform_congr {files' : List String} {content content' : Content}
    (first : readFiles read files = .ok content) (second : readFiles read files' = .ok content')
    (same : load content = load content') {options : Options} (other : options.action ≠ .tokens)
    (nonempty : files ≠ []) (nonempty' : files' ≠ []) (fuel : Nat) (input : Bytes) :
    perform fuel read { options with files := files } input =
      perform fuel read { options with files := files' } input := by
  simp only [perform, if_neg nonempty, if_neg nonempty', first, second]
  exact performOn_congr same other ..

/-- Commands with the same options answer the same if their files hold the same program. -/
lemma invoke_append_congr {d : Directory} {files' args : List String} {content content' : Content}
    (first : readFiles d.read files = .ok content) (second : readFiles d.read files' = .ok content')
    (same : load content = load content') {draft : Draft}
    (options : Draft.addArgs {} args = .ok draft) (noFile : draft.files = [])
    (noTokens : .tokens ∉ draft.flags) (names : ∀ f ∈ files, NamesFile f)
    (names' : ∀ f ∈ files', NamesFile f) (nonempty : files ≠ []) (nonempty' : files' ≠ [])
    (fuel : Nat) (input : Bytes) :
    invoke fuel (args ++ files) d input = invoke fuel (args ++ files') d input := by
  simp only [invoke, Invocation.ofArgs_append options noFile names,
    Invocation.ofArgs_append options noFile names']
  cases asked : draft.options with
  | error settled => rfl
  | ok options =>
    have action := Draft.action_of_options asked noTokens
    simp only [perform_congr first second same action nonempty nonempty']

/-! ## Images -/

section Emitted

variable {d d' : Directory} {image : String} {p : Program}
  (sources : Sources d.read files p) (name : NamesFile image ∧ isImage image)
  (written : d.write image p.image = .ok d')
include sources name written

/-- **An image is written** for sources that resolve, and nothing is said. -/
theorem invoke_emitImage (fuel : Nat) (input : Bytes) :
    invoke fuel ("--emit-image" :: image :: files) d input = some (⟨0, [], []⟩, d') := by
  have option : Draft.addArg {} "--emit-image" = .ok ({}, some .emitImage) := by decide
  have options : Draft.addArgs {} ["--emit-image", image] = .ok { emitImage := some image } := by
    rw [Draft.addArgs_cons, if_neg (by decide), option]
    dsimp only
    rw [if_neg name.1.2, Draft.set, Draft.name, if_neg name.1.1]
    rfl
  have asked : Invocation.ofArgs ("--emit-image" :: image :: files) =
      .perform ⟨files, .emitImage image, none, Compiler.defaultStackSize, none⟩ :=
    Invocation.ofArgs_append options rfl fun f mem => (sources.names f mem).1
  obtain ⟨tokens, read, resolved⟩ := sources.resolve
  obtain ⟨content, found, loaded⟩ :=
    exists_content (fun path mem => (sources.names path mem).2) read resolved
  simp only [invoke, asked, perform, if_neg sources.nonempty, found, performOn, withProgram, loaded,
    Option.map_some, settle, written]
  rfl

/-- When the image is written, the sources still hold the program. -/
lemma exists_content_of_write :
    ∃ content, readFiles d'.read files = .ok content ∧ load content = .ok p := by
  obtain ⟨tokens, read, resolved⟩ := sources.resolve
  refine exists_content (fun path mem => (sources.names path mem).2) ?_ resolved
  refine readSources_congr (fun path mem bytes found => ?_) read
  refine Directory.read_of_write_of_ne written found fun names => ?_
  -- a source whose path ended like that of the image would be an image
  have plain := (sources.names path mem).2
  rw [isImage, hasExtension_congr names] at plain
  exact plain name.2

/-- So does the image. -/
lemma exists_content_of_image :
    ∃ content, readFiles d'.read [image] = .ok content ∧ load content = .ok p := by
  have loaded : readImage d'.read image = .ok p := by
    simp only [readImage, Directory.read_of_write written, Except.mapError, bind,
      Except.bind, sources.ofImage_eq]
  refine ⟨.program p, ?_, rfl⟩
  rw [readFiles, List.find?_cons_of_pos name.2]
  dsimp only [List.length_singleton]
  rw [if_neg (Nat.lt_irrefl 1), loaded]
  rfl

/-- **An image does for its sources.** When sources resolve, their image is written without a word;
and whatever options are given with it, unless its tokens are asked for, the command does with the
image what it does with the sources: it answers the same and leaves the same tree, or neither of
the two ends. -/
theorem invoke_image_eq_invoke_sources {args : List String} {draft : Draft}
    (options : Draft.addArgs {} args = .ok draft) (noFile : draft.files = [])
    (noTokens : .tokens ∉ draft.flags) :
    (∀ fuel input,
      invoke fuel ("--emit-image" :: image :: files) d input = some (⟨0, [], []⟩, d')) ∧
    ∀ fuel input,
      invoke fuel (args ++ [image]) d' input = invoke fuel (args ++ files) d' input := by
  refine ⟨invoke_emitImage sources name written, ?_⟩
  obtain ⟨content, first, loaded⟩ := exists_content_of_image sources name written
  obtain ⟨content', second, loaded'⟩ := exists_content_of_write sources name written
  exact invoke_append_congr first second (loaded.trans loaded'.symm) options noFile noTokens
    (by simpa using name.1) (fun f mem => (sources.names f mem).1) (by simp) sources.nonempty

end Emitted

/-- Two sources of which one refers to the other, and one is named from the root, stepped through
and gone on with in a session. Their image is beside the working directory. -/
theorem invoke_image_eq_invoke_sources_debug :
    let d : Directory := ⟨.directory
      [("home", .directory [("a.src", .file (Utf8.encode "1 @b jmp # ü\n"))]),
        ("lib", .directory [("b.src", .file (Utf8.encode ":b: print"))])], ["home"]⟩
    ∃ d',
      (∀ fuel input, invoke fuel ["--emit-image", "../x.tsti", "a.src", "/lib/b.src"] d input =
        some (⟨0, [], []⟩, d')) ∧
      ∀ fuel input, invoke fuel ["-di", "--max-steps=9", "../x.tsti"] d' input =
        invoke fuel ["-di", "--max-steps=9", "a.src", "/lib/b.src"] d' input := by
  intro d
  let p : Program := ⟨0, #[.push 1, .push 3, .op .jmp, .op .print],
    #[⟨"a.src", 1, 1⟩, ⟨"a.src", 1, 3⟩, ⟨"a.src", 1, 6⟩, ⟨"/lib/b.src", 1, 5⟩]⟩
  let tokens : List SourceToken :=
    [⟨.instr (.push 1), "a.src", 1, 1⟩, ⟨.refer "b", "a.src", 1, 3⟩,
      ⟨.instr (.op .jmp), "a.src", 1, 6⟩]
  let tokens' : List SourceToken :=
    [⟨.define "b", "/lib/b.src", 1, 1⟩, ⟨.instr (.op .print), "/lib/b.src", 1, 5⟩]
  have first : d.read "a.src" = .ok (Utf8.encode "1 @b jmp # ü\n") := by decide
  have second : d.read "/lib/b.src" = .ok (Utf8.encode ":b: print") := by decide
  have taken : Source.tokens "a.src" "1 @b jmp # ü\n" = .ok tokens := by cbv
  have taken' : Source.tokens "/lib/b.src" ":b: print" = .ok tokens' := by cbv
  have read : readSources d.read ["a.src", "/lib/b.src"] = .ok (tokens ++ (tokens' ++ [])) :=
    readSources_cons_eq_ok.2 ⟨_, _, _, _, first, Utf8.decode?_encode _, taken,
      readSources_cons_eq_ok.2 ⟨_, _, _, _, second, Utf8.decode?_encode _, taken', rfl, rfl⟩, rfl⟩
  have resolved : Resolution.resolve (tokens ++ (tokens' ++ [])) 0 = .ok p := by cbv
  have names : ∀ path ∈ ["a.src", "/lib/b.src"], NamesFile path ∧ ¬ isImage path := by
    simp only [List.forall_mem_cons, List.not_mem_nil, false_imp_iff, forall_const, and_true]
    exact ⟨⟨by simp [NamesFile, Draft.holdsOptions], by decide⟩,
      by simp [NamesFile, Draft.holdsOptions], by decide⟩
  have lengths : ∀ path ∈ ["a.src", "/lib/b.src"], ∀ bytes, d.read path = .ok bytes →
      bytes.length + 1 < 2 ^ 64 := by
    simp only [List.forall_mem_cons, List.not_mem_nil, false_imp_iff, forall_const, and_true,
      first, second, Except.ok.injEq, forall_eq']
    exact ⟨by decide, by decide⟩
  have sources : Sources d.read ["a.src", "/lib/b.src"] p :=
    ⟨by simp, names, ⟨_, read, resolved⟩, by decide, lengths⟩
  have name : NamesFile "../x.tsti" ∧ isImage "../x.tsti" :=
    ⟨by simp [NamesFile, Draft.holdsOptions], by decide⟩
  have written : d.write "../x.tsti" p.image = .ok (d.put p.image ["x.tsti"]) := rfl
  have options : Draft.addArgs {} ["-di", "--max-steps=9"] =
      .ok { flags := [.interpret, .debug], maxSteps := some 9 } := by cbv
  have both := invoke_image_eq_invoke_sources sources name written options rfl (by simp)
  simp only [List.cons_append, List.nil_append] at both
  exact ⟨_, both⟩

end CommandLine

end StackAsm
