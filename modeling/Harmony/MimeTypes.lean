import Harmony.StaticScan
import Harmony.TextFields

/-!
# Types of files

The types that files are sent with come from a table of the system,
`/etc/mime.types`. A line names a type and the extensions that have it, with blanks
between them; lines that are empty, that begin with a blank, or with `#`, say
nothing. An extension has the type that is listed first, and a type the extension
that is listed first, but for icons.

The table may have been written by anyone, and `mime_types_read` says what is read
of any file whatsoever. Every type that a file is sent with has an extension, which
`get_extension` finds (`extension_of_type`), and a file is sent with the type of its
own extension also if it is a compressed copy that is sent (`type_of_served`).
-/

open StringView TextFields

/-- `string_map`. -/
abbrev StringMap := Bytes → Option Bytes

namespace StringMap

/-- `emplace`: what is there stays. -/
def emplace (m : StringMap) (key value : Bytes) : StringMap :=
  if (m key).isSome then m else Function.update m key (some value)

/-- `operator[]`, assigned to. -/
def assign (m : StringMap) (key value : Bytes) : StringMap :=
  Function.update m key (some value)

end StringMap

/-! ## Reading the table -/

/-- `delim_pred`. -/
def isDelim (c : UInt8) : Bool := c == 32 || c == 9

/-- The two maps of `read_mime_types`: the types of the extensions, and the
extensions of the types. -/
structure MimeTypes where
  types : StringMap
  exts : StringMap

namespace MimeTypes

def empty : MimeTypes := ⟨fun _ => none, fun _ => none⟩

/-- An extension is listed for a type. -/
def add (rt : MimeTypes) (type ext : Bytes) : MimeTypes :=
  ⟨rt.types.emplace ext type, rt.exts.emplace type ext⟩

/-- The loop over the extensions of a line, from `ext_end` on. -/
def addExts (type rest : Bytes) (rt : MimeTypes) : MimeTypes :=
  match _h : rest.dropWhile isDelim with
  | [] => rt
  | c :: s =>
    addExts type ((c :: s).dropWhile fun c => !isDelim c)
      (rt.add type ((c :: s).takeWhile fun c => !isDelim c))
termination_by rest.length
decreasing_by exact length_dropWhile_lt _h

/-- A line of the file. -/
def addLine (rt : MimeTypes) (line : Bytes) : MimeTypes :=
  if line = [] ∨ line.head? = some 35 then rt
  else
    let type := line.takeWhile fun c => !isDelim c
    if type = [] then rt
    else addExts type (line.dropWhile fun c => !isDelim c) rt

end MimeTypes

/-- **`read_mime_types`**, of a file if there is one. -/
def readMimeTypes (file : Option Bytes) : MimeTypes :=
  let rt := match file with
    | some text => (lines 10 text).foldl MimeTypes.addLine .empty
    | none => .empty
  ⟨rt.types.assign (bytes "ico") (bytes "image/x-icon"),
    rt.exts.assign (bytes "image/x-icon") (bytes "ico")⟩

/-! ## How a table is written -/

/-- **What a line lists**: nothing, or a type and the extensions that have it. -/
inductive MimeLine : Bytes → List (Bytes × Bytes) → Prop
  | empty : MimeLine [] []
  | comment (rest : Bytes) : MimeLine (35 :: rest) []
  | indented {c : UInt8} (rest : Bytes) (hc : isDelim c = true) :
    MimeLine (c :: rest) []
  | entry {type rest : Bytes} {exts : List Bytes} (htype : Word isDelim type)
      (hhead : type.head? ≠ some 35) (hrest : Ends isDelim rest)
      (h : Spaced isDelim rest exts) :
    MimeLine (type ++ rest) (exts.map fun ext => (type, ext))

/-- **What a file lists**, line by line. -/
def MimeFile (text : Bytes) (pairs : List (Bytes × Bytes)) : Prop :=
  ∃ ls listed, Lined 10 text ls ∧ List.Forall₂ MimeLine ls listed
    ∧ pairs = listed.flatten

namespace MimeTypes

/-- What is listed is added in turn. -/
def addAll (rt : MimeTypes) (pairs : List (Bytes × Bytes)) : MimeTypes :=
  pairs.foldl (fun rt p => rt.add p.1 p.2) rt

/-- The loop goes over the words. -/
theorem addExts_eq (type rest : Bytes) (rt : MimeTypes) :
    addExts type rest rt
      = rt.addAll ((words isDelim rest).map fun ext => (type, ext)) := by
  induction hn : rest.length using Nat.strong_induction_on generalizing rest rt with
  | h n ih =>
    rw [addExts, words]
    split
    next h =>
      split
      next => rfl
      next h' => cases h.symm.trans h'
    next c s h =>
      split
      next h' => cases h'.symm.trans h
      next h' =>
        cases h'.symm.trans h
        rw [ih _ (hn ▸ length_dropWhile_lt h) _ _ rfl]
        rfl

end MimeTypes

/-- What a line lists, as it is read. -/
def pairsOf (line : Bytes) : List (Bytes × Bytes) :=
  if line = [] ∨ line.head? = some 35 then []
  else
    let type := line.takeWhile fun c => !isDelim c
    if type = [] then []
    else (words isDelim (line.dropWhile fun c => !isDelim c)).map fun ext => (type, ext)

theorem pairsOf_of_mimeLine {line : Bytes} {pairs : List (Bytes × Bytes)}
    (h : MimeLine line pairs) : pairsOf line = pairs := by
  unfold pairsOf
  cases h with
  | empty => rfl
  | comment rest => rfl
  | @indented c rest hc =>
    by_cases hhead : c :: rest = [] ∨ (c :: rest).head? = some 35
    · rw [if_pos hhead]
    · rw [if_neg hhead]
      dsimp only
      rw [List.takeWhile_cons_of_neg (p := fun c => !isDelim c) (by simp [hc]),
        if_pos rfl]
  | @entry type rest exts htype hhead hrest h =>
    obtain ⟨c, w, rfl⟩ := List.exists_cons_of_ne_nil htype.ne_nil
    obtain ⟨htake, hdrop⟩ := htype.takeWhile_append hrest
    have hnot : ¬(c :: w ++ rest = [] ∨ (c :: w ++ rest).head? = some 35) :=
      not_or.mpr ⟨List.cons_ne_nil _ _, hhead⟩
    rw [if_neg hnot]
    dsimp only
    rw [htake, hdrop, if_neg htype.ne_nil, spaced_iff.mp h]

theorem mimeLine_pairsOf (line : Bytes) : MimeLine line (pairsOf line) := by
  cases line with
  | nil => exact .empty
  | cons c rest =>
    unfold pairsOf
    by_cases hhash : c = 35
    · subst hhash
      exact .comment rest
    · have hnot : ¬(c :: rest = [] ∨ (c :: rest).head? = some 35) :=
        not_or.mpr ⟨List.cons_ne_nil _ _, fun h => hhash (Option.some.inj h)⟩
      rw [if_neg hnot]
      dsimp only
      cases hc : isDelim c with
      | true =>
        rw [List.takeWhile_cons_of_neg (p := fun c => !isDelim c) (by simp [hc]),
          if_pos rfl]
        exact .indented rest hc
      | false =>
        have htype := word_takeWhile hc rest
        have hhead : ((c :: rest).takeWhile fun c => !isDelim c).head? ≠ some 35 := by
          rw [List.takeWhile_cons_of_pos (p := fun c => !isDelim c) (by simp [hc])]
          exact fun h => hhash (Option.some.inj h)
        have hentry := MimeLine.entry htype hhead (ends_dropWhile (c :: rest))
          (spaced_words _)
        rw [List.takeWhile_append_dropWhile] at hentry
        rw [if_neg htype.ne_nil]
        exact hentry

/-- **What a line lists is what is read.** -/
theorem mimeLine_iff {line : Bytes} {pairs : List (Bytes × Bytes)} :
    MimeLine line pairs ↔ pairsOf line = pairs := by
  refine ⟨pairsOf_of_mimeLine, ?_⟩
  rintro rfl
  exact mimeLine_pairsOf line

/-- **What a file lists is what is read**, line by line. -/
theorem mimeFile_iff {text : Bytes} {pairs : List (Bytes × Bytes)} :
    MimeFile text pairs ↔ (lines 10 text).flatMap pairsOf = pairs := by
  have hall : ∀ (ls : List Bytes) (listed : List (List (Bytes × Bytes))),
      List.Forall₂ MimeLine ls listed ↔ ls.map pairsOf = listed := by
    intro ls listed
    rw [← List.forall₂_eq_eq_eq, List.forall₂_map_left_iff]
    exact ⟨fun h => h.imp fun _ _ => mimeLine_iff.mp,
      fun h => h.imp fun _ _ => mimeLine_iff.mpr⟩
  constructor
  · rintro ⟨ls, listed, hlined, hlisted, rfl⟩
    rw [lined_iff.mp hlined, ← (hall _ _).mp hlisted, List.flatMap_def]
  · rintro rfl
    exact ⟨_, _, lined_lines text, (hall _ _).mpr rfl, List.flatMap_def⟩

/-! ## What is found in the maps -/

/-- Of the values for a key the first one is kept. -/
theorem StringMap.foldl_emplace (key value : Bytes × Bytes → Bytes)
    (pairs : List (Bytes × Bytes)) (m : StringMap) (k : Bytes) :
    pairs.foldl (fun (m : StringMap) p => m.emplace (key p) (value p)) m k
      = (m k).or ((pairs.find? fun p => decide (key p = k)).map value) := by
  induction pairs generalizing m with
  | nil => exact (Option.or_none).symm
  | cons p pairs ih =>
    rw [List.foldl_cons, ih]
    unfold emplace
    by_cases hk : key p = k
    · subst hk
      rw [List.find?_cons_of_pos (by simp)]
      cases hm : m (key p) with
      | none => simp
      | some v => simp [hm]
    · rw [List.find?_cons_of_neg (by simpa using hk)]
      split_ifs
      · rfl
      · rw [Function.update_of_ne (Ne.symm hk)]

namespace MimeTypes

theorem addAll_eq (rt : MimeTypes) (pairs : List (Bytes × Bytes)) :
    rt.addAll pairs
      = ⟨pairs.foldl (fun m p => m.emplace p.2 p.1) rt.types,
        pairs.foldl (fun m p => m.emplace p.1 p.2) rt.exts⟩ := by
  induction pairs generalizing rt with
  | nil => rfl
  | cons p pairs ih => exact ih _

theorem addLine_eq (rt : MimeTypes) (line : Bytes) :
    rt.addLine line = rt.addAll (pairsOf line) := by
  unfold addLine pairsOf
  dsimp only
  split_ifs
  · rfl
  · rfl
  · exact addExts_eq _ _ rt

/-- All lines together. -/
theorem foldl_addLine (rt : MimeTypes) (ls : List Bytes) :
    ls.foldl addLine rt = rt.addAll (ls.flatMap pairsOf) := by
  induction ls generalizing rt with
  | nil => rfl
  | cons line ls ih =>
    rw [List.foldl_cons, ih, addLine_eq, List.flatMap_cons]
    unfold addAll
    rw [List.foldl_append]

end MimeTypes

/-- The pairs of a table: none if there is no file. -/
def listedIn (file : Option Bytes) : List (Bytes × Bytes) :=
  (file.map fun text => (lines 10 text).flatMap pairsOf).getD []

/-- The type of an extension, and the extension of a type. -/
theorem readMimeTypes_eq (file : Option Bytes) :
    (∀ ext, (readMimeTypes file).types ext
      = if ext = bytes "ico" then some (bytes "image/x-icon")
        else ((listedIn file).find? fun p => decide (p.2 = ext)).map Prod.fst)
    ∧ ∀ type, (readMimeTypes file).exts type
      = if type = bytes "image/x-icon" then some (bytes "ico")
        else ((listedIn file).find? fun p => decide (p.1 = type)).map Prod.snd := by
  have hrt : readMimeTypes file
      = ⟨(MimeTypes.empty.addAll (listedIn file)).types.assign (bytes "ico")
          (bytes "image/x-icon"),
        (MimeTypes.empty.addAll (listedIn file)).exts.assign (bytes "image/x-icon")
          (bytes "ico")⟩ := by
    cases file with
    | none => rfl
    | some text =>
      unfold readMimeTypes
      dsimp only
      rw [MimeTypes.foldl_addLine]
      rfl
  rw [hrt, MimeTypes.addAll_eq]
  unfold StringMap.assign
  dsimp only
  refine ⟨fun ext => ?_, fun type => ?_⟩
  · rw [Function.update_apply]
    refine if_congr Iff.rfl rfl ?_
    exact StringMap.foldl_emplace Prod.snd Prod.fst _ _ ext
  · rw [Function.update_apply]
    refine if_congr Iff.rfl rfl ?_
    exact StringMap.foldl_emplace Prod.fst Prod.snd _ _ type

/-- **What is read of a table.** Any file whatsoever lists pairs of a type and an
extension, in one way. An extension has the type that it is listed with first, and a
type the extension that is first listed for it; but icons have the type
`image/x-icon`, and that one has the extension `ico`. -/
theorem mime_types_read (text : Bytes) :
    ∃ pairs, (∀ pairs', MimeFile text pairs' ↔ pairs' = pairs)
      ∧ (∀ ext, (readMimeTypes (some text)).types ext
        = if ext = bytes "ico" then some (bytes "image/x-icon")
          else (pairs.find? fun p => decide (p.2 = ext)).map Prod.fst)
      ∧ ∀ type, (readMimeTypes (some text)).exts type
        = if type = bytes "image/x-icon" then some (bytes "ico")
          else (pairs.find? fun p => decide (p.1 = type)).map Prod.snd :=
  ⟨_, fun _ => mimeFile_iff.trans eq_comm, readMimeTypes_eq (some text)⟩

/-! ## Extensions of types -/

/-- `find_first_not_of`, of one character: a position, or `npos`. -/
def findFirstNotOf (c : UInt8) (s : Bytes) : ℕ :=
  let n := (s.takeWhile fun x => x == c).length
  if n < s.length then n else 2 ^ 64 - 1

/-- `find_first_of`, of one character. -/
def findFirstOf (c : UInt8) (s : Bytes) : ℕ :=
  let n := (s.takeWhile fun x => x != c).length
  if n < s.length then n else 2 ^ 64 - 1

/-- **`get_extension`.** -/
def getExtension (file : Option Bytes) (mimeType : Bytes) : Except Fault Bytes := do
  let dict := (readMimeTypes file).exts
  -- trim
  let mimeType ← substr mimeType (findFirstNotOf 32 mimeType) (2 ^ 64 - 1)
  let mimeType ← substr mimeType 0 (findFirstOf 32 mimeType)
  .ok ((dict mimeType).getD [])

/-- A pair that is listed is of two words. -/
theorem word_of_mem_pairsOf {line : Bytes} {p : Bytes × Bytes}
    (hp : p ∈ pairsOf line) : Word isDelim p.1 ∧ Word isDelim p.2 := by
  have hwords : ∀ {rest : Bytes} {exts : List Bytes}, Spaced isDelim rest exts →
      ∀ w ∈ exts, Word isDelim w := by
    intro rest exts h
    induction h with
    | nil hpad => exact fun w hw => absurd hw List.not_mem_nil
    | word hpad hw hrest h ih => exact List.forall_mem_cons.mpr ⟨hw, ih⟩
  generalize hpairs : pairsOf line = pairs at hp
  cases mimeLine_iff.mpr hpairs with
  | empty => cases hp
  | comment rest => cases hp
  | indented rest hc => cases hp
  | entry htype hhead hrest h =>
    obtain ⟨ext, hext, rfl⟩ := List.mem_map.mp hp
    exact ⟨htype, hwords h ext hext⟩

theorem word_of_mem_listedIn {file : Option Bytes} {p : Bytes × Bytes}
    (hp : p ∈ listedIn file) : Word isDelim p.1 ∧ Word isDelim p.2 := by
  cases file with
  | none => cases hp
  | some text =>
    obtain ⟨line, -, hline⟩ := List.mem_flatMap.mp hp
    exact word_of_mem_pairsOf hline

/-- A type that an extension has is a word, and has an extension. -/
theorem exists_ext {file : Option Bytes} {ext type : Bytes}
    (h : (readMimeTypes file).types ext = some type) :
    Word isDelim type
      ∧ ∃ ext', (readMimeTypes file).exts type = some ext' ∧ ext' ≠ [] := by
  obtain ⟨htypes, hexts⟩ := readMimeTypes_eq file
  rw [htypes] at h
  rw [hexts]
  by_cases hicon : type = bytes "image/x-icon"
  · rw [if_pos hicon, hicon]
    exact ⟨⟨by decide, by decide +kernel⟩, _, rfl, by decide⟩
  · rw [if_neg hicon]
    split_ifs at h with hico
    · exact absurd (Option.some.inj h).symm hicon
    · obtain ⟨p, hfind, rfl⟩ := Option.map_eq_some_iff.mp h
      have hmem := List.mem_of_find?_eq_some hfind
      refine ⟨(word_of_mem_listedIn hmem).1, ?_⟩
      obtain ⟨q, hq⟩ :
          ∃ q, (listedIn file).find? (fun q => decide (q.1 = p.1)) = some q :=
        Option.isSome_iff_exists.mp (List.find?_isSome.mpr ⟨p, hmem, by simp⟩)
      rw [hq]
      exact ⟨q.2, rfl, (word_of_mem_listedIn (List.mem_of_find?_eq_some hq)).2.ne_nil⟩

/-- **A type is trimmed** of the blanks in front, and of all that is behind the
next blank. -/
theorem getExtension_trim (file : Option Bytes) {pad type more : Bytes}
    (hpad : ∀ c ∈ pad, c = 32) (htype : Word isDelim type)
    (hmore : ∀ c ∈ more.head?, c = 32)
    (fits : (pad ++ (type ++ more)).length < 2 ^ 64) :
    getExtension file (pad ++ (type ++ more))
      = .ok (((readMimeTypes file).exts type).getD []) := by
  have hplain : ∀ c ∈ type, c ≠ 32 := by
    rintro _ hc rfl
    exact absurd (htype.plain 32 hc) (by decide)
  obtain ⟨c, w, rfl⟩ := List.exists_cons_of_ne_nil htype.ne_nil
  rw [List.length_append, List.length_append, List.length_cons] at fits
  -- the blanks in front
  have hfirst : findFirstNotOf 32 (pad ++ ((c :: w) ++ more)) = pad.length := by
    unfold findFirstNotOf
    dsimp only
    rw [List.takeWhile_append_of_pos (by simpa using hpad), List.cons_append,
      List.takeWhile_cons_of_neg (by simpa using hplain c List.mem_cons_self),
      List.append_nil, if_pos (by simp)]
  -- the blank behind
  have hlast : ((c :: w) ++ more).take (findFirstOf 32 ((c :: w) ++ more))
      = c :: w := by
    have htake : ((c :: w) ++ more).takeWhile (fun x => x != 32) = c :: w := by
      rw [List.takeWhile_append_of_pos (by simpa using hplain)]
      cases more with
      | nil => rw [List.takeWhile_nil, List.append_nil]
      | cons d more =>
        rw [List.takeWhile_cons_of_neg (by simpa using hmore d rfl), List.append_nil]
    unfold findFirstOf
    dsimp only
    rw [htake]
    split_ifs with hlt
    · exact List.take_left
    · have hnil : more = [] := by
        rw [List.length_append] at hlt
        exact List.length_eq_zero_iff.mp (by omega)
      rw [hnil, List.append_nil]
      exact List.take_of_length_le (by rw [List.length_cons]; omega)
  unfold getExtension
  dsimp only
  rw [hfirst, substr_of_le _ (by simp), List.drop_left, Except.ok_bind,
    List.take_of_length_le (by simp only [List.length_append, List.length_cons]; omega),
    substr_of_le _ (Nat.zero_le _), List.drop_zero, hlast, Except.ok_bind]

/-- It throws on what is empty, or blank. -/
theorem getExtension_eq_error_iff (file : Option Bytes) {s : Bytes}
    (fits : s.length < 2 ^ 64 - 1) :
    getExtension file s = .error .outOfRange ↔ ∀ c ∈ s, c = 32 := by
  have hall : (∀ c ∈ s, c = 32)
      ↔ ¬(s.takeWhile fun x => x == 32).length < s.length := by
    rw [not_lt]
    constructor
    · intro h
      rw [List.takeWhile_eq_self_iff.mpr (by simpa using h)]
    · intro h c hc
      have hself := (List.takeWhile_prefix (l := s) fun x => x == 32).eq_of_length_le h
      have hpos := List.takeWhile_eq_self_iff.mp hself c hc
      simpa using hpos
  rw [hall]
  unfold getExtension findFirstNotOf
  dsimp only
  by_cases hlt : (s.takeWhile fun x => x == 32).length < s.length
  · rw [if_pos hlt, substr_of_le _ hlt.le, Except.ok_bind,
      substr_of_le _ (Nat.zero_le _), Except.ok_bind]
    exact iff_of_false nofun (not_not.mpr hlt)
  · rw [if_neg hlt, substr_of_lt _ (by omega), Except.error_bind]
    exact iff_of_true rfl hlt

/-- **Every type that a file is sent with has an extension**, and it is found, with
blanks around the type or without. -/
theorem extension_of_type (file : Option Bytes) (ext type pad more : Bytes)
    (h : (readMimeTypes file).types ext = some type) (hpad : ∀ c ∈ pad, c = 32)
    (hmore : ∀ c ∈ more.head?, c = 32)
    (fits : (pad ++ (type ++ more)).length < 2 ^ 64) :
    ∃ ext', (readMimeTypes file).exts type = some ext' ∧ ext' ≠ []
      ∧ getExtension file (pad ++ (type ++ more)) = .ok ext' := by
  obtain ⟨htype, ext', hext, hne⟩ := exists_ext h
  refine ⟨ext', hext, hne, ?_⟩
  rw [getExtension_trim file hpad htype hmore fits, hext]
  rfl

/-- A table with a comment, a line for each of two types, and one type more for the
same extension. -/
def smallTable : Bytes :=
  bytes "# types\ntext/css css\ntext/html\thtml  htm\n\napplication/x-page htm"

/-- The first of the types is found, and its first extension. -/
theorem extension_smallTable :
    ∃ ext, (readMimeTypes (some smallTable)).exts (bytes "text/html") = some ext
      ∧ ext ≠ []
      ∧ getExtension (some smallTable) (bytes "  text/html ; utf-8") = .ok ext :=
  extension_of_type (some smallTable) (bytes "htm") (bytes "text/html") (bytes "  ")
    (bytes " ; utf-8") (by decide +kernel) (by decide +kernel) (by decide +kernel)
    (by decide +kernel)

/-! ## The types of files -/

/-- `mime_type` of an entry: what `set_mime_type` has found, or nothing. -/
def FileEntry.mimeType (types : StringMap) (e : FileEntry) : Bytes :=
  (types e.ext).getD []

/-- `encoding`, for a file that is compressed. -/
def FileEntry.contentEncoding (e : FileEntry) : Option Bytes :=
  if e.compressed then some e.encoding else none

/-- The encoding that the suffix of a file stands for. -/
def encodingOf (suffix : Bytes) : Option Bytes :=
  if suffix = [] then none
  else if suffix = bytes ".br" then some (bytes "br")
  else some (bytes "gzip")

/-- **What the suffix of an encoding does to an entry**: it has that encoding, and
the extension of the file without the suffix. -/
theorem FileEntry.new_suffix {root : StaticRoot} {fd : ℕ} {path suffix : Bytes}
    {watch : Bool} {e : FileEntry}
    (h : FileEntry.new root fd (path ++ suffix) watch = .ok e)
    (hsuffix : suffix ∈ suffixes) (hplain : extOf path ∉ encodings) :
    e.fd = fd ∧ e.ext = extOf path ∧ e.contentEncoding = encodingOf suffix := by
  unfold FileEntry.new at h
  obtain ⟨relpath, -, h⟩ := Except.exists_of_bind_eq_ok h
  rw [← Except.ok.inj h]
  simp only [encodings, List.mem_cons, List.not_mem_nil, or_false, not_or] at hplain
  unfold FileEntry.checkIfCompressed
  dsimp only
  rcases List.mem_cons.mp hsuffix with rfl | hmem
  · rw [List.append_nil, if_neg hplain.1, if_neg (not_or.mpr hplain.2)]
    exact ⟨rfl, rfl, rfl⟩
  · obtain ⟨x, hx, rfl⟩ := List.mem_map.mp hmem
    -- an encoding has no dot, so that it is the suffix
    have hsame : ∀ x ∈ encodings, extOf (46 :: x) = x := by decide
    have hext : extOf (path ++ 46 :: x) = x := by
      rw [extOf_append List.mem_cons_self, hsame x hx]
    have hwithout : withoutExt (path ++ 46 :: x) = path := by
      have hsplit := withoutExt_append_extOf
        (List.mem_append_right path (List.mem_cons_self (a := 46) (l := x)))
      rw [hext] at hsplit
      exact List.append_cancel_right hsplit
    have hencoding : ∀ x ∈ encodings, encodingOf (46 :: x)
        = some (if x = bytes "br" then bytes "br" else bytes "gzip") := by
      decide +kernel
    rw [hext, hwithout, hencoding x hx]
    simp only [encodings, List.mem_cons, List.not_mem_nil, or_false] at hx
    split_ifs with hbr hgz
    · exact ⟨rfl, rfl, rfl⟩
    · exact ⟨rfl, rfl, rfl⟩
    · exact absurd (hx.resolve_left hbr) hgz

/-- **A file is sent with the type of its extension**, whether it is the file that
is sent or a compressed copy. -/
theorem type_of_served {root : StaticRoot} (disk : Disk) {paths : List Bytes}
    {files : Files} (hfiles : List.Forall₂ (EntryOf root) paths files)
    (hbelow : ∀ p ∈ paths, root.text <+: p) {r : Bytes}
    (hmem : root.text ++ r ∈ paths) (hplain : extOf (root.text ++ r) ∉ encodings)
    (prefer watch : Bool) (types : StringMap) :
    ∃ e, (FileRequest.mk (slash :: r) prefer true watch).get root disk files
        = .ok ⟨some e, files, []⟩
      ∧ e.mimeType types = (types (extOf (root.text ++ r))).getD [] := by
  obtain ⟨_, hin, -⟩ := served_of_loaded disk hfiles hbelow hmem hplain prefer watch
  obtain ⟨e, -, fd, watch', suffix, hget, hnew, -, hsuffix⟩ := entry_of_known disk
    (allBelow_of_entries hfiles hbelow) (q := ⟨slash :: r, prefer, true, watch⟩) rfl
    (List.ne_nil_of_mem hin)
  refine ⟨e, hget, ?_⟩
  rw [FileEntry.mimeType, (FileEntry.new_suffix hnew hsuffix hplain).2.1]

/-- A style sheet and a compressed copy of it. -/
def styleFiles : Files :=
  [(bytes "/a.css", ⟨3, bytes "/srv/www/a.css", bytes "/a.css", bytes "css", false,
      [], true⟩),
    (bytes "/a.css", ⟨4, bytes "/srv/www/a.css.br", bytes "/a.css", bytes "css", true,
      bytes "br", true⟩)]

/-- Both are sent as a style sheet. -/
theorem type_of_styleFiles :
    ∃ e, (FileRequest.mk (bytes "/a.css") true true true).get wwwRoot
          ⟨fun _ => false, fun _ => none⟩ styleFiles = .ok ⟨some e, styleFiles, []⟩
      ∧ e.mimeType (readMimeTypes (some smallTable)).types = bytes "text/css" := by
  have hentries : List.Forall₂ (EntryOf wwwRoot)
      [bytes "/srv/www/a.css", bytes "/srv/www/a.css.br"] styleFiles :=
    .cons ⟨rfl, 3, true, by decide +kernel⟩
      (.cons ⟨rfl, 4, true, by decide +kernel⟩ .nil)
  obtain ⟨e, hget, htype⟩ := type_of_served ⟨fun _ => false, fun _ => none⟩ hentries
    (by decide +kernel) (r := bytes "a.css") (by decide +kernel) (by decide +kernel)
    true true (readMimeTypes (some smallTable)).types
  exact ⟨e, hget, htype.trans (by decide +kernel)⟩
