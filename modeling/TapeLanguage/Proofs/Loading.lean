import TapeLanguage.CommandLine.Report
import TapeLanguage.Proofs.Places

/-!
# Loading all sources or none

A file `Holds` a text if it opens and its bytes stand for the text in the encoding that is named.
Reading such a file gives the text, with every end of line as a line feed (`readSource_of_holds`).
What else reading gives depends on whether the file is `Askable`: there must be the name of an
encoding, neither the name nor the path may hold a null character, and once the file is open the
name must stand for a codec of texts. Then a file that does not open, that cannot be read or that is
malformed gives an error with its path. An error without a path comes from a file that cannot be
asked for, or from one whose bytes the codec refuses (`reads_readSource`); such an error is not
reported. All this holds whatever the names of encodings stand for.

A command line names its sources in order: the text it carries, or files (`Options.sources`). Either
one of them is the first that is no program (`FirstFailure`), or all of them are programs. Loading
stops with the error of that first one, or it gives all programs in order (`load_of_firstFailure`,
`load_of_programs`). If the files can be asked for (`Usable`), an error of loading is reported to
the user unless it is the refusal of a codec (`cases_of_firstFailure`), and every program that is
loaded has been decoded (`exists_decodes`).
-/

set_option autoImplicit false

namespace TapeLanguage

/-! ## Reading a file -/

/-- The path of the file that an error is about. -/
def SourceError.path? : SourceError → Option String
  | cannotOpen path _ | cannotRead path _ => some path
  | refused _ | nullInPath | nullInEncoding | noEncoding | unknownEncoding _
  | bytewiseEncoding _ => none

/-- The errors that carry a path are those that are reported. -/
theorem isReported_source (e : SourceError) : (Error.source e).isReported = e.path?.isSome := by
  cases e <;> rfl

/-- A file can be asked for in an encoding. -/
def Askable (files : FileSource) (place : Path) (encodingName : Option String) : Prop :=
  ∃ name, encodingName = some name ∧ holdsNull name = false ∧ holdsNull place.text = false ∧
    ∀ file, files.openFile place = .ok file → ∃ codec, files.codecs name = .text codec

/-- The codec with a name refuses the bytes of a file. -/
def Refuses (files : FileSource) (place : Path) (name reason : String) : Prop :=
  ∃ bytes codec, files.openFile place = .ok (.ok bytes) ∧ files.codecs name = .text codec ∧
    codec bytes = .error (.refused reason)

/-- A file can be asked for, and the codec does not refuse its bytes. -/
structure Answerable (files : FileSource) (place : Path) (encodingName : Option String) :
    Prop where
  askable : Askable files place encodingName
  not_refused : ∀ name reason, encodingName = some name → ¬ Refuses files place name reason

/-- A file can be asked for, and it holds a text in the encoding with a name. -/
structure Holds (files : FileSource) (place : Path) (name text : String) : Prop where
  name_usable : holdsNull name = false
  path_usable : holdsNull place.text = false
  decoded : ∃ bytes codec, files.openFile place = .ok (.ok bytes) ∧
    files.codecs name = .text codec ∧ codec bytes = .ok text.toList

/-- What reading a file gives. -/
inductive Reads (files : FileSource) (place : Path) (encodingName : Option String) :
    Except SourceError String → Prop
  /-- The text that the file holds, with every end of line as a line feed. -/
  | text {name text : String} (hname : encodingName = some name)
    (hholds : Holds files place name text) :
    Reads files place encodingName (.ok (Text.unifiedNewlines text.toList))
  /-- An error with the path of the file. -/
  | reported {e : SourceError} (hanswer : Answerable files place encodingName)
    (hpath : e.path? = some place.text) : Reads files place encodingName (.error e)
  /-- The reason for which the codec refuses the bytes of the file. -/
  | refused {name reason : String} (hname : encodingName = some name)
    (hrefuses : Refuses files place name reason) :
    Reads files place encodingName (.error (.refused reason))
  /-- An error without a path. -/
  | unasked {e : SourceError} (hask : ¬ Askable files place encodingName) (hpath : e.path? = none) :
    Reads files place encodingName (.error e)

section Read

variable {files : FileSource} {place : Path} {name text : String}

variable (path : String)

/-- With a usable name and a usable path the file is opened, and then the codec is looked up. -/
theorem readSource_eq (hname : holdsNull name = false)
    (hpath : holdsNull (Path.ofText path).text = false) :
    readSource files path (some name) =
      match files.openFile (Path.ofText path) with
      | .error failure => .error (.cannotOpen (Path.ofText path).text failure)
      | .ok file =>
        match files.findCodec name with
        | .error e => .error e
        | .ok codec => decodeSource (Path.ofText path) codec file := by
  rw [readSource, checkedEncodingName, hname]
  simp only [Bool.false_eq_true, if_false, FileSource.openSource, hpath]
  cases files.openFile (Path.ofText path) <;> rfl

variable {path}

/-- **A file that holds a text is read as the text**, with every end of line as a line feed. -/
theorem readSource_of_holds (h : Holds files (.ofText path) name text) :
    readSource files path (some name) = .ok (Text.unifiedNewlines text.toList) := by
  obtain ⟨bytes, codec, hfile, hcodec, hdecode⟩ := h.decoded
  simp only [readSource_eq path h.name_usable h.path_usable, hfile, FileSource.findCodec, hcodec,
    decodeSource, hdecode]

/-- What the codec makes of a file that opens. -/
theorem reads_decodeSource {file : OpenFile} {codec : Codec} (hname : holdsNull name = false)
    (hpath : holdsNull place.text = false) (hfile : files.openFile place = .ok file)
    (hcodec : files.codecs name = .text codec) :
    Reads files place (some name) (decodeSource place codec file) := by
  have hask : Askable files place (some name) :=
    ⟨name, rfl, hname, hpath, fun _ _ => ⟨codec, hcodec⟩⟩
  -- a refusal would be one of this file and this codec
  have hrefusal : ∀ name' reason, some name = some name' → Refuses files place name' reason →
      ∃ bytes, file = .ok bytes ∧ codec bytes = .error (.refused reason) := by
    rintro _ reason ⟨rfl⟩ ⟨bytes, codec', hfile', hcodec', hrefused⟩
    obtain rfl : codec = codec' := Codec.Named.text.inj (hcodec.symm.trans hcodec')
    exact ⟨bytes, Except.ok.inj (hfile.symm.trans hfile'), hrefused⟩
  cases file with
  | error detail =>
    refine .reported ⟨hask, fun name' reason hsame hrefuses => ?_⟩ rfl
    obtain ⟨bytes, hbytes, -⟩ := hrefusal name' reason hsame hrefuses
    cases hbytes
  | ok bytes =>
    rw [decodeSource]
    cases hdecode : codec bytes with
    | ok cs =>
      have hholds : Holds files place name (String.ofList cs) :=
        ⟨hname, hpath, bytes, codec, hfile, hcodec, by rw [hdecode, String.toList_ofList]⟩
      have htext := Reads.text rfl hholds
      rwa [String.toList_ofList] at htext
    | error failure =>
      cases failure with
      | malformed m =>
        refine .reported ⟨hask, fun name' reason hsame hrefuses => ?_⟩ rfl
        obtain ⟨bytes', hbytes, hrefused⟩ := hrefusal name' reason hsame hrefuses
        obtain rfl := Except.ok.inj hbytes
        exact CodecFailure.noConfusion (Except.error.inj (hdecode.symm.trans hrefused))
      | refused reason => exact .refused rfl ⟨bytes, codec, hfile, hcodec, hdecode⟩

/-- What reading gives with a usable name and a usable path. -/
theorem reads_of_usable (hname : holdsNull name = false)
    (hpath : holdsNull (Path.ofText path).text = false) :
    Reads files (.ofText path) (some name) (readSource files path (some name)) := by
  rw [readSource_eq path hname hpath]
  cases hfile : files.openFile (Path.ofText path) with
  | error failure =>
    -- the name of the encoding is not looked at before the file is open
    refine .reported ⟨⟨name, rfl, hname, hpath, fun file hopen => ?_⟩, ?_⟩ rfl
    · rw [hfile] at hopen
      cases hopen
    · rintro name' reason - ⟨bytes, codec, hopen, -⟩
      rw [hfile] at hopen
      cases hopen
  | ok file =>
    have hnamed : (∀ codec, files.codecs name ≠ .text codec) →
        ¬ Askable files (.ofText path) (some name) := by
      rintro hnone ⟨_, ⟨rfl⟩, -, -, hopen⟩
      obtain ⟨codec, hcodec⟩ := hopen file hfile
      exact hnone codec hcodec
    simp only [FileSource.findCodec]
    cases hcodec : files.codecs name with
    | text codec => exact reads_decodeSource hname hpath hfile hcodec
    | bytewise | unknown =>
      refine .unasked (hnamed fun codec hname => ?_) rfl
      exact Codec.Named.noConfusion (hcodec.symm.trans hname)

variable (files path)

/-- **Reading a file gives the text that it holds, or an error with its path**, unless the file
cannot be asked for, or the codec refuses its bytes. -/
theorem reads_readSource (encodingName : Option String) :
    Reads files (.ofText path) encodingName (readSource files path encodingName) := by
  -- the checks come in the order in which reading makes them
  cases encodingName with
  | none => exact .unasked (by simp [Askable]) rfl
  | some name =>
    cases hname : holdsNull name with
    | true =>
      have hread : readSource files path (some name) = .error .nullInEncoding := by
        simp [readSource, checkedEncodingName, hname]
      rw [hread]
      exact .unasked (by simp [Askable, hname]) rfl
    | false =>
      cases hpath : holdsNull (Path.ofText path).text with
      | true =>
        have hread : readSource files path (some name) = .error .nullInPath := by
          simp [readSource, checkedEncodingName, hname, FileSource.openSource, hpath]
        rw [hread]
        exact .unasked (by simp [Askable, hpath]) rfl
      | false => exact reads_of_usable hname hpath

end Read

namespace CommandLine

open Program

/-! ## Sources -/

/-- The sources that a command line names, in order: each with its name, and the program in it or
the reason why there is none. -/
def Options.sources (files : FileSource) (o : Options) : List (String × Except Error Program) :=
  match o.code with
  | some parts => [(inlineName, (parse (String.join parts)).outcome.mapError .decode)]
  | none => o.files.map fun path => (path, parseFile files path o.encoding)

/-- Each path and the name of the encoding can be used to open a file. -/
def Options.Usable (files : FileSource) (o : Options) : Prop :=
  ∀ path ∈ o.files, holdsNull (Path.ofText path).text = false ∧
    ∃ name codec, o.encoding = some name ∧ holdsNull name = false ∧
      files.codecs name = .text codec

/-- A program as a source. -/
def Loaded.source (l : Loaded) : String × Except Error Program :=
  (l.name, .ok l.program)

/-- The first source that is no program has an error. -/
def FirstFailure (sources : List (String × Except Error Program)) (e : Error) : Prop :=
  ∃ (good : List Loaded) (name : String) (rest : List (String × Except Error Program)),
    sources = good.map Loaded.source ++ (name, .error e) :: rest

/-- A source is the first that is no program, or all of them are programs. -/
theorem firstFailure_or_programs (sources : List (String × Except Error Program)) :
    (∃ e, FirstFailure sources e) ∨
      ∃ programs : List Loaded, sources = programs.map Loaded.source := by
  induction sources with
  | nil => exact Or.inr ⟨[], rfl⟩
  | cons source rest ih =>
    obtain ⟨name, result⟩ := source
    cases result with
    | error e => exact Or.inl ⟨e, [], name, rest, rfl⟩
    | ok p =>
      rcases ih with ⟨e, good, other, more, rfl⟩ | ⟨programs, rfl⟩
      · exact Or.inl ⟨e, ⟨name, p⟩ :: good, other, more, rfl⟩
      · exact Or.inr ⟨⟨name, p⟩ :: programs, rfl⟩

/-! ## Loading -/

/-- A text is loaded as the program that it is. -/
theorem loadText_eq (debug : Bool) (name text : String) :
    (loadText debug name text).1 =
      ((parse text).outcome.mapError .decode).map fun p => ⟨name, p⟩ := by
  rw [loadText]
  cases (parse text).outcome <;> rfl

/-- The program in a file comes from the text that is read. -/
theorem parseFile_eq (files : FileSource) (path : String) (encoding : Option String) :
    parseFile files path encoding =
      match readSource files path encoding with
      | .ok text => (parse text).outcome.mapError .decode
      | .error e => .error (.source e) := by
  rw [parseFile, decodeFile]
  cases readSource files path encoding <;> rfl

/-- A file is loaded as the program that is in it. -/
theorem loadFile_eq (files : FileSource) (encoding : Option String) (debug : Bool) (path : String) :
    (loadFile files encoding debug path).1 =
      (parseFile files path encoding).map fun p => ⟨path, p⟩ := by
  rw [loadFile, parseFile_eq]
  cases readSource files path encoding with
  | error e => rfl
  | ok text => exact loadText_eq debug path text

section Files

variable {files : FileSource} {encoding : Option String} (debug : Bool)

/-- A file that is a program is loaded before the others. -/
theorem loadFiles_cons {path : String} {p : Program} (h : parseFile files path encoding = .ok p)
    (paths : List String) (loaded : Array Loaded) (trace : Trace) :
    ∃ trace', loadFiles files encoding debug (path :: paths) loaded trace =
      loadFiles files encoding debug paths (loaded.push ⟨path, p⟩) trace' := by
  have hload := loadFile_eq files encoding debug path
  rw [h] at hload
  rw [loadFiles]
  generalize loadFile files encoding debug path = outcome at hload ⊢
  obtain ⟨result, events⟩ := outcome
  obtain rfl : result = .ok ⟨path, p⟩ := hload
  exact ⟨_, rfl⟩

/-- Files that are programs are loaded before the others. -/
theorem loadFiles_of_programs {paths : List String} {good : List Loaded}
    {rest : List (String × Except Error Program)} (loaded : Array Loaded) (trace : Trace)
    (h : (paths.map fun path => (path, parseFile files path encoding)) =
      good.map Loaded.source ++ rest) :
    ∃ paths' trace', rest = (paths'.map fun path => (path, parseFile files path encoding)) ∧
      loadFiles files encoding debug paths loaded trace =
        loadFiles files encoding debug paths' (loaded ++ good.toArray) trace' := by
  induction good generalizing paths loaded trace with
  | nil => exact ⟨paths, trace, h.symm, by rw [Array.append_empty]⟩
  | cons l good ih =>
    rw [List.map_cons, List.cons_append, List.map_eq_cons_iff] at h
    obtain ⟨path, paths', rfl, hsource, hrest⟩ := h
    obtain ⟨rfl, hp⟩ := Prod.mk.inj hsource
    obtain ⟨trace', hcons⟩ := loadFiles_cons debug hp paths' loaded trace
    obtain ⟨paths'', trace'', hrest', hload⟩ := ih (loaded.push l) trace' hrest
    refine ⟨paths'', trace'', hrest', ?_⟩
    rw [hcons, hload, List.toArray_cons, ← Array.append_assoc, ← Array.push_eq_append]

end Files

section Load

variable {files : FileSource} {o : Options}

/-- The source on the command line is loaded as the program that it is. -/
theorem load_of_code {parts : List String} (h : o.code = some parts) :
    (load files o).1 =
      ((parse (String.join parts)).outcome.mapError .decode).map fun p => [⟨inlineName, p⟩] := by
  have htext := loadText_eq o.debug inlineName (String.join parts)
  rw [load, h]
  dsimp only
  rw [htext]
  cases (parse (String.join parts)).outcome <;> rfl

/-- **Loading stops with the error of the first source that is no program.** -/
theorem load_of_firstFailure {e : Error} (h : FirstFailure (o.sources files) e) :
    (load files o).1 = .error e := by
  obtain ⟨good, name, rest, h⟩ := h
  rw [Options.sources] at h
  cases hcode : o.code with
  | some parts =>
    rw [hcode] at h
    cases good with
    | cons l good =>
      obtain ⟨-, hnil⟩ := List.cons.inj h
      exact absurd hnil (by simp)
    | nil =>
      obtain ⟨hsource, -⟩ := List.cons.inj h
      rw [load_of_code hcode, (Prod.mk.inj hsource).2]
      rfl
  | none =>
    rw [hcode] at h
    obtain ⟨paths, trace, hrest, hload⟩ := loadFiles_of_programs o.debug #[] #[] h
    rw [load, hcode]
    dsimp only
    rw [hload]
    obtain ⟨path, paths', rfl, hsource, -⟩ := List.map_eq_cons_iff.1 hrest.symm
    obtain ⟨-, hresult⟩ := Prod.mk.inj hsource
    have hfile := loadFile_eq files o.encoding o.debug path
    rw [hresult] at hfile
    rw [loadFiles]
    generalize loadFile files o.encoding o.debug path = outcome at hfile ⊢
    obtain ⟨result, events⟩ := outcome
    obtain rfl : result = .error e := hfile
    rfl

/-- **Loading gives all programs in order** if all sources are programs. -/
theorem load_of_programs {programs : List Loaded}
    (h : o.sources files = programs.map Loaded.source) : (load files o).1 = .ok programs := by
  rw [Options.sources] at h
  cases hcode : o.code with
  | some parts =>
    rw [hcode] at h
    obtain ⟨l, rest, rfl, hsource, hnil⟩ := List.map_eq_cons_iff.1 h.symm
    obtain rfl := List.map_eq_nil_iff.1 hnil
    obtain ⟨hname, hresult⟩ := Prod.mk.inj hsource
    rw [load_of_code hcode, ← hresult, ← hname]
    rfl
  | none =>
    rw [hcode] at h
    rw [← List.append_nil (programs.map Loaded.source)] at h
    obtain ⟨paths, trace, hrest, hload⟩ := loadFiles_of_programs o.debug #[] #[] h
    rw [load, hcode]
    dsimp only
    rw [hload, List.map_eq_nil_iff.1 hrest.symm, Array.empty_append, loadFiles]

end Load

/-! ## What goes wrong -/

/-- The error of a source text that is no program is reported. -/
theorem isReported_of_text {text : String} {e : Error}
    (h : .error e = (parse text).outcome.mapError Error.decode) : e.isReported = true := by
  cases hparse : (parse text).outcome with
  | ok p =>
    rw [hparse] at h
    cases h
  | error e' =>
    rw [hparse] at h
    obtain rfl := Except.error.inj h
    rcases parse_error hparse with ⟨position, site, rfl⟩ | ⟨position, unclosed, rfl⟩ <;> rfl

/-- Files that can be used can be asked for. -/
theorem Options.Usable.askable {files : FileSource} {o : Options} (h : o.Usable files)
    {path : String} (hpath : path ∈ o.files) : Askable files (.ofText path) o.encoding := by
  obtain ⟨hnull, name, codec, hname, hvalid, hcodec⟩ := h path hpath
  exact ⟨name, hname, hvalid, hnull, fun _ _ => ⟨codec, hcodec⟩⟩

section Errors

variable {files : FileSource} {o : Options}

/-- What a source gives comes from a text that is decoded, or from a file that cannot be read. -/
theorem result_of_source {source : String × Except Error Program} (h : source ∈ o.sources files) :
    (∃ text, source.2 = (parse text).outcome.mapError .decode) ∨
      ∃ path ∈ o.files, ∃ e, readSource files path o.encoding = .error e ∧
        source.2 = .error (.source e) := by
  rw [Options.sources] at h
  cases hcode : o.code with
  | some parts =>
    rw [hcode, List.mem_singleton] at h
    exact Or.inl ⟨String.join parts, congrArg Prod.snd h⟩
  | none =>
    rw [hcode, List.mem_map] at h
    obtain ⟨path, hpath, rfl⟩ := h
    rw [parseFile_eq]
    cases hread : readSource files path o.encoding with
    | ok text => exact Or.inl ⟨text, rfl⟩
    | error e => exact Or.inr ⟨path, hpath, e, hread, rfl⟩

/-- A codec refuses the bytes of a file of the command line, for a reason. -/
def Options.Refused (files : FileSource) (o : Options) (reason : String) : Prop :=
  ∃ path ∈ o.files, ∃ name, o.encoding = some name ∧ Refuses files (.ofText path) name reason

/-- **An error of loading is reported to the user, or it is the refusal of a codec**, if the files
can be asked for. -/
theorem cases_of_firstFailure {e : Error} (husable : o.Usable files)
    (h : FirstFailure (o.sources files) e) :
    e.isReported = true ∨ ∃ reason, o.Refused files reason ∧ e = .source (.refused reason) := by
  obtain ⟨good, name, rest, h⟩ := h
  have hmem : (name, Except.error e) ∈ o.sources files := by
    rw [h]
    exact List.mem_append_right _ List.mem_cons_self
  rcases result_of_source hmem with ⟨text, hresult⟩ | ⟨path, hpath, e', hread, hresult⟩
  · exact Or.inl (isReported_of_text hresult)
  · obtain rfl := Except.error.inj hresult
    have hreads := reads_readSource files path o.encoding
    rw [hread] at hreads
    cases hreads with
    | reported hanswer hshown =>
      rw [isReported_source, hshown]
      exact Or.inl rfl
    | refused hname hrefuses => exact Or.inr ⟨_, ⟨path, hpath, _, hname, hrefuses⟩, rfl⟩
    | unasked hask _ => exact absurd (husable.askable hpath) hask

/-- Every program that is loaded has been decoded. -/
theorem exists_decodes {programs : List Loaded} (h : o.sources files = programs.map Loaded.source) :
    ∀ l ∈ programs, ∃ tokens, Decodes tokens l.program := by
  intro l hl
  have hmem : l.source ∈ o.sources files := by
    rw [h]
    exact List.mem_map_of_mem hl
  rcases result_of_source hmem with ⟨text, hresult⟩ | ⟨path, -, e, -, hresult⟩
  · cases hparse : (parse text).outcome with
    | ok p =>
      rw [hparse] at hresult
      obtain rfl := Except.ok.inj hresult
      exact ⟨_, decodes_of_decode hparse⟩
    | error e =>
      rw [hparse] at hresult
      exact absurd hresult nofun
  · exact absurd hresult nofun

end Errors

end CommandLine

end TapeLanguage
