import StackAsm.Proofs.Locations
import StackAsm.Proofs.Source.Lines

set_option autoImplicit false

/-!
# Source text read piece by piece

What stands in front of a text, up to the end of a line, only moves it down. So files and lines can
be read on their own and put together afterwards: the tokens are those of the whole, and so is the
first fault, at other locations.

**Proof sketch.** The reader arrives behind the text in front with its tokens (`tokensFrom_append`).
From there on a change of all positions changes the locations of tokens and of faults, and nothing
else (`tokensFrom_moved`).

## Main definitions

* `StackAsm.Position.down`, `StackAsm.Location.down` — a place some lines further down.
* `StackAsm.Source.relocated` — what is read of a text, at other locations.
* `StackAsm.assembleFiles` — the program of several files.

## Main results

* `StackAsm.Source.tokensFrom_moved` — the same text elsewhere.
* `StackAsm.Source.tokens_append` — the tokens of two texts, one behind the other.
* `StackAsm.Source.tokensOfFiles_alike`, `StackAsm.Source.exists_tokens_join` — files and lines, one
  by one and all at once.
* `StackAsm.tokens_append_and_assemble_join` — reading and assembling in pieces and at once.
-/

namespace StackAsm

/-- A place in a text, some lines further down. -/
def Position.down (n : Nat) (p : Position) : Position := { p with line := p.line + n }

/-- A place in a file, some lines further down. -/
def Location.down (n : Nat) (l : Location) : Location := { l with line := l.line + n }

/-- An error in source text at another location. -/
def LexError.mapLocations (f : Location → Location) (e : LexError) : LexError :=
  { e with location := f e.location }

namespace Source

/-- What is read of a text, tokens or a fault, at other locations. -/
def relocated (f : Location → Location) (read : Except LexError (List SourceToken)) :
    Except LexError (List SourceToken) :=
  (read.mapError (LexError.mapLocations f)).map (List.map (SourceToken.mapLocations f))

/-! ## The same text elsewhere -/

section Moved

variable {file file' : String} {move : Position → Position} {f : Location → Location}
  (next : ∀ p c, (move p).next c = move (p.next c))
  (place : ∀ p : Position, (move p).inFile file' = f (p.inFile file))

include next in
/-- The place behind a text moves along with the place in front of it. -/
lemma after_moved (p : Position) (cs : List Char) : (move p).after cs = move (p.after cs) := by
  induction cs generalizing p with
  | nil => rfl
  | cons c cs ih => rw [Position.after_cons, Position.after_cons, next, ih]

include next place in
/-- A text that stands elsewhere is read as ever, at other locations, if places are changed alike
along the text. -/
theorem tokensFrom_moved (p : Position) (cs : List Char) :
    tokensFrom file' (move p) cs = relocated f (tokensFrom file p cs) := by
  induction h : cs.length using Nat.strongRecOn generalizing p cs with
  | ind n ih =>
    subst h
    rw [tokensFrom_eq, tokensFrom_eq file]
    cases split : splitBlank false cs with
    | mk blank rest =>
      cases rest with
      | nil => rfl
      | cons c rest =>
        have shorter := length_lt_of_splitBlank split
        dsimp only
        cases lexeme c rest with
        | error fault =>
          dsimp only
          rw [after_moved next, after_moved next, place]
          rfl
        | ok taken =>
          obtain ⟨token, n⟩ := taken
          have fewer : (rest.drop n).length < cs.length := by
            rw [List.length_drop]
            omega
          dsimp only
          rw [after_moved next, after_moved next, place, ih _ fewer _ _ rfl]
          cases tokensFrom file ((p.after blank).after (c :: rest.take n)) (rest.drop n) <;> rfl

end Moved

/-- A text further down in its file is read as at the front of it, further down. -/
lemma tokensFrom_down (file : String) (n : Nat) (p : Position) (cs : List Char) :
    tokensFrom file (p.down n) cs = relocated (Location.down n) (tokensFrom file p cs) := by
  refine tokensFrom_moved (fun p c => ?_) (fun p => rfl) p cs
  unfold Position.next
  split
  · simp [Position.down, Nat.add_right_comm]
  · rfl

/-- A text under another name is read as ever, in the other file. -/
lemma tokens_rename (file file' : String) (text : String) :
    tokens file' text = relocated (fun l => { l with file := file' }) (tokens file text) := by
  have next (p : Position) (c : Char) : (id p).next c = id (p.next c) := rfl
  exact tokensFrom_moved next (fun p => rfl) Position.first text.toList

/-! ## One text behind the other -/

/-- The place behind such a text is at the front of a line. -/
lemma after_of_endsLine {cs : List Char} (ends : EndsLine cs) :
    Position.first.after cs = Position.first.down (cs.count '\n') := by
  have front : cs.rtakeWhile (· ≠ '\n') = [] := by
    rw [List.rtakeWhile_eq_nil_iff]
    intro nonempty
    simpa using ends _ (List.getLast?_eq_some_getLast nonempty)
  have place := inFile_after "" cs
  rw [locate, front] at place
  obtain ⟨-, line, column⟩ := Location.mk.inj place
  show Position.mk (Position.first.after cs).line (Position.first.after cs).column = _
  rw [line, column]
  rfl

/-- **The tokens of a text behind another one** that does not end within a line are those of both
texts, the other ones first, and further down by the lines of the other one. -/
theorem tokens_append (file : String) {s : String} (ends : EndsLine s.toList) (t : String) :
    tokens file (s ++ t) =
      (tokens file s).bind fun ts =>
        (relocated (Location.down (s.toList.count '\n')) (tokens file t)).map fun us =>
          ts ++ us := by
  rw [tokens, String.toList_append, tokensFrom_append file _ ends, after_of_endsLine ends,
    tokensFrom_down]
  rfl

/-! ## Several files -/

/-- What is read at other locations, and then at others again, is read at these. -/
lemma relocated_relocated (f g : Location → Location)
    (read : Except LexError (List SourceToken)) :
    relocated g (relocated f read) = relocated (g ∘ f) read := by
  cases read with
  | error e => rfl
  | ok ts => simp [relocated, Except.mapError, Except.map, SourceToken.mapLocations]

/-- A fault in the text in front stays, and the tokens of two texts stay those of both. -/
lemma relocated_bind_map (f : Location → Location)
    (read read' : Except LexError (List SourceToken)) :
    relocated f (read.bind fun ts => read'.map fun us => ts ++ us) =
      (relocated f read).bind fun ts => (relocated f read').map fun us => ts ++ us := by
  cases read with
  | error e => rfl
  | ok ts =>
    cases read' with
    | error e => rfl
    | ok us => simp [relocated, Except.mapError, Except.map, Except.bind]

/-- Tokens that are the same but for locations are the same words. -/
lemma map_token_of_alike {ts us : List SourceToken}
    (alike : relocated noLocation (.ok ts) = relocated noLocation (.ok us)) :
    ts.map (·.token) = us.map (·.token) := by
  have words := congrArg (List.map (·.token)) (Except.ok.inj alike)
  rw [List.map_map, List.map_map] at words
  exact words

/-- **Files that are read one by one** are read as one text is that holds all of them, if none of
them ends within a line: with the same tokens, or with the same fault, at other locations. -/
theorem tokensOfFiles_alike (file : String) {files : List (String × String)}
    (ends : ∀ f ∈ files, EndsLine f.2.toList) :
    relocated noLocation (tokensOfFiles files) =
      relocated noLocation (tokens file (String.join (files.map Prod.snd))) := by
  induction files with
  | nil =>
    rw [List.map_nil, tokens, tokensFrom_eq]
    rfl
  | cons f files ih =>
    obtain ⟨name, text⟩ := f
    rw [List.forall_mem_cons] at ends
    have unfolded : tokensOfFiles ((name, text) :: files) =
        (tokens name text).bind fun ts => (tokensOfFiles files).map fun us => ts ++ us := rfl
    have joined : String.join (((name, text) :: files).map Prod.snd) =
        text ++ String.join (files.map Prod.snd) := by
      simp
    have forget (g : Location → Location) : noLocation ∘ g = noLocation := rfl
    rw [unfolded, joined, tokens_append file ends.1, relocated_bind_map, relocated_bind_map,
      relocated_relocated, forget, ih ends.2, tokens_rename name file text, relocated_relocated,
      forget]

/-- Files that are read have the tokens of each, one behind the other. -/
lemma tokensOfFiles_eq_ok {files : List (String × String)} {ts : List (List SourceToken)}
    (read : List.Forall₂ (fun f ts => tokens f.1 f.2 = .ok ts) files ts) :
    tokensOfFiles files = .ok ts.flatten := by
  induction read with
  | nil => rfl
  | @cons f ts files others first more ih =>
    rw [tokensOfFiles, first, ih]
    rfl

/-- **Lines read one by one** have together the tokens of all of them read at once. -/
theorem exists_tokens_join {file : String} {lines : List String} {tokens : List (List SourceToken)}
    (read : List.Forall₂
      (fun line ts => EndsLine line.toList ∧ Source.tokens file line = .ok ts) lines tokens)
    (file' : String) :
    ∃ whole, Source.tokens file' (String.join lines) = .ok whole ∧
      whole.map (·.token) = tokens.flatten.map (·.token) := by
  obtain ⟨ends, each⟩ := (List.forall₂_and_left _ _).1 read
  have separate : tokensOfFiles (lines.map (Prod.mk file)) = .ok tokens.flatten :=
    tokensOfFiles_eq_ok (List.forall₂_map_left_iff.2 each)
  have texts : (lines.map (Prod.mk file)).map Prod.snd = lines := by
    simp [Function.comp_def]
  have endsAll : ∀ f ∈ lines.map (Prod.mk file), EndsLine f.2.toList := List.forall_mem_map.2 ends
  have alike := tokensOfFiles_alike file' endsAll
  rw [separate, texts] at alike
  cases whole : Source.tokens file' (String.join lines) with
  | error e =>
    rw [whole] at alike
    cases alike
  | ok ts =>
    rw [whole] at alike
    exact ⟨ts, rfl, (map_token_of_alike alike).symm⟩

end Source

/-- The program of several files, given by name and text: their tokens one behind the other, at
address 0. -/
def assembleFiles (files : List (String × String)) : Except Error Program := do
  let tokens ← (Source.tokensOfFiles files).mapError .source
  (Resolution.resolve tokens 0).mapError .resolve

/-- What assembling yields but for locations: the start and the instructions of a program, or what
kind of error there is, and the label that it is about, if it is about one. -/
def withoutLocations (assembled : Except Error Program) :
    Except Error (Address × Array Instruction) :=
  (assembled.mapError (Error.mapLocations noLocation)).map fun p => (p.start, p.instructions)

/-- Tokens that are the same but for locations resolve alike, and faults that are, are alike. -/
lemma withoutLocations_congr {read read' : Except LexError (List SourceToken)}
    (alike : Source.relocated noLocation read = Source.relocated noLocation read') :
    withoutLocations ((read.mapError .source).bind fun ts =>
        (Resolution.resolve ts 0).mapError .resolve) =
      withoutLocations ((read'.mapError .source).bind fun ts =>
        (Resolution.resolve ts 0).mapError .resolve) := by
  cases read with
  | error e =>
    cases read' with
    | error e' => exact congrArg (Except.error ∘ Error.source) (Except.error.inj alike)
    | ok us => cases alike
  | ok ts =>
    cases read' with
    | error e' => cases alike
    | ok us =>
      have outline (ts : List SourceToken) :
          withoutLocations ((Resolution.resolve ts 0).mapError .resolve) =
            (Resolution.mapResult noLocation (fun p => (p.start, p.instructions))
              (Resolution.resolve ts 0)).mapError .resolve := by
        cases Resolution.resolve ts 0 <;> rfl
      show withoutLocations ((Resolution.resolve ts 0).mapError .resolve) =
        withoutLocations ((Resolution.resolve us 0).mapError .resolve)
      rw [outline, outline, Resolution.resolve_alike (Source.map_token_of_alike alike) 0]

/-- **Reading is compositional at the ends of lines.** Take a text that does not end within a line,
and any text behind it. If there is a fault in the one in front, it is the fault of both together.
Otherwise a fault in the text behind is the fault of both together, further down by the line feeds
in front of it; and if there is none, the tokens of both together are those of the text in front,
followed by those of the text behind, which are further down.

So texts that do not end within a line can be read on their own. What their tokens, one behind the
other, resolve to, is what all the texts in one assemble to: a program with the same start and the
same instructions, or an error of the same kind that is about the same label or the same word. -/
theorem tokens_append_and_assemble_join :
    (∀ file s t : String, Source.EndsLine s.toList →
      (∀ e, Source.tokens file s = .error e → Source.tokens file (s ++ t) = .error e) ∧
      ∀ ts, Source.tokens file s = .ok ts →
        (∀ e, Source.tokens file t = .error e → Source.tokens file (s ++ t) =
          .error (e.mapLocations (Location.down (s.toList.count '\n')))) ∧
        ∀ us, Source.tokens file t = .ok us → Source.tokens file (s ++ t) =
          .ok (ts ++ us.map (SourceToken.mapLocations (Location.down (s.toList.count '\n'))))) ∧
    ∀ (file : String) (files : List (String × String)),
      (∀ f ∈ files, Source.EndsLine f.2.toList) →
      withoutLocations (assembleFiles files) =
        withoutLocations (assemble file (String.join (files.map Prod.snd))) := by
  refine ⟨fun file s t ends => ⟨fun e wrong => ?_, fun ts read => ⟨fun e wrong => ?_,
    fun us read' => ?_⟩⟩, fun file files ends => ?_⟩
  · rw [Source.tokens_append file ends, wrong]
    rfl
  · rw [Source.tokens_append file ends, read, wrong]
    rfl
  · rw [Source.tokens_append file ends, read, read']
    rfl
  · exact withoutLocations_congr (Source.tokensOfFiles_alike file ends)

/-- A text that ends with a comment has its tokens, and the text behind it its own or its fault, one
line further down. Of two files that define the same label the second one is found wrong, and so is
the one text that they make, at another place. -/
theorem tokens_append_and_assemble_join_duplicate :
    Source.tokens "f" (":a: 1 # é\n" ++ "@a") =
        .ok [⟨.define "a", ⟨"f", 1, 1⟩⟩, ⟨.instr (.push 1), ⟨"f", 1, 5⟩⟩,
          ⟨.refer "a", ⟨"f", 2, 1⟩⟩] ∧
      Source.tokens "f" (":a: 1 # é\n" ++ "@a -\n") =
        .error ⟨.expectedDigit, ⟨"f", 2, 5⟩⟩ ∧
      assembleFiles [("f", ":a: 1 # é\n"), ("g", "@a :a:\n")] =
        .error (.resolve (.duplicateLabel "a" ⟨"g", 1, 4⟩ ⟨"f", 1, 1⟩)) ∧
      withoutLocations (assemble "h" ":a: 1 # é\n@a :a:\n") =
        .error (.resolve (.duplicateLabel "a" default default)) := by
  obtain ⟨pieces, whole⟩ := tokens_append_and_assemble_join
  have ends : Source.EndsLine ":a: 1 # é\n".toList := by simp [Source.EndsLine]
  have ends' : Source.EndsLine "@a :a:\n".toList := by simp [Source.EndsLine]
  have front : Source.tokens "f" ":a: 1 # é\n" =
      .ok [⟨.define "a", ⟨"f", 1, 1⟩⟩, ⟨.instr (.push 1), ⟨"f", 1, 5⟩⟩] := by cbv
  have back : Source.tokens "f" "@a" = .ok [⟨.refer "a", ⟨"f", 1, 1⟩⟩] := by cbv
  have wrong : Source.tokens "f" "@a -\n" = .error ⟨.expectedDigit, ⟨"f", 1, 5⟩⟩ := by cbv
  have separate : assembleFiles [("f", ":a: 1 # é\n"), ("g", "@a :a:\n")] =
      .error (.resolve (.duplicateLabel "a" ⟨"g", 1, 4⟩ ⟨"f", 1, 1⟩)) := by cbv
  have together := whole "h" [("f", ":a: 1 # é\n"), ("g", "@a :a:\n")]
    (List.forall_mem_cons.2 ⟨ends, List.forall_mem_singleton.2 ends'⟩)
  rw [separate] at together
  refine ⟨?_, ?_, separate, together.symm⟩
  · exact ((pieces "f" _ "@a" ends).2 _ front).2 _ back
  · exact ((pieces "f" _ "@a -\n" ends).2 _ front).1 _ wrong

end StackAsm
