import Mathlib.Data.List.DropRight
import Protobind.Proofs.Comments
import Protobind.Proofs.Texts

/-!
# Docstrings of packages

The documentation of a package is printed between triple quotes. Backslashes are doubled and triple
quotes are escaped, so that reading up to the first closing quotes (`readDoc`) gives its lines back.
-/

namespace Protobind

open List Text Source

variable {c : Char} {cs rest : List Char}

/-- Whether a character can stand in a source text: it is not the null character, and no carriage
return, which would be read as a line feed. -/
def isSourceChar (c : Char) : Bool := c ≠ '\x00' && c ≠ '\r'

def isSourceText (text : String) : Bool := text.toList.all isSourceChar

/-- Reads a triple-quoted text behind its opening quotes: what it says, and what stands behind its
closing quotes. Of the escapes, those of backslashes and of quotes are read. -/
def readDoc : List Char → Option (List Char × List Char)
  | [] => none
  | '\x22' :: '\x22' :: '\x22' :: rest => some ([], rest)
  | '\\' :: c :: rest =>
    if c = '\\' || c = '\x22' then (readDoc rest).map fun p => (c :: p.1, p.2) else none
  | c :: rest =>
    if c = '\\' || !isSourceChar c then none else (readDoc rest).map fun p => (c :: p.1, p.2)

theorem readDoc_cons (hc : c ≠ '\x22') (hslash : c ≠ '\\') (hsource : isSourceChar c = true)
    (rest : List Char) : readDoc (c :: rest) = (readDoc rest).map fun p => (c :: p.1, p.2) := by
  rw [readDoc.eq_4]
  · simp [hslash, hsource]
  · intro rest' h
    exact absurd h hc
  · intro c' rest' h
    exact absurd h hslash

/-- A quote that is left as it is was there before. -/
theorem quote_of_docChars {after : List Char} (h : docChars cs ++ '\n' :: rest = '\x22' :: after) :
    ∃ cs', cs = '\x22' :: cs' ∧ after = docChars cs' ++ '\n' :: rest := by
  revert h
  fun_cases docChars cs with
  | case4 c cs =>
    intro h
    obtain ⟨rfl, rfl⟩ := cons.inj h
    exact ⟨cs, rfl, rfl⟩
  | _ => exact fun h => by cases h

theorem readDoc_docChars (h : ∀ c ∈ cs, isSourceChar c = true) (rest : List Char) :
    readDoc (docChars cs ++ '\n' :: rest) = (readDoc rest).map fun p => (cs ++ '\n' :: p.1, p.2) := by
  fun_induction docChars cs with
  | case1 => exact readDoc_cons (by decide) (by decide) (by decide) rest
  | case2 cs ih =>
    have ih := ih fun c hc => h c (mem_cons_of_mem _ hc)
    rw [cons_append, cons_append, readDoc.eq_3, ih]
    simp [Function.comp_def]
  | case3 cs ih =>
    have ih := ih fun c hc => h c (by simp [hc])
    simp only [cons_append, readDoc.eq_3, ih]
    simp [Function.comp_def]
  | case4 c cs hslash hquotes ih =>
    obtain ⟨hc, hcs⟩ := forall_mem_cons.mp h
    have hslash : c ≠ '\\' := fun h => hslash h
    rw [cons_append, readDoc.eq_4, ih hcs]
    · simp [hslash, hc, Function.comp_def]
    · intro rest' hc hrest'
      obtain ⟨cs', rfl, h'⟩ := quote_of_docChars hrest'
      obtain ⟨cs'', rfl, _⟩ := quote_of_docChars h'.symm
      exact hquotes cs'' hc rfl
    · exact fun _ _ h => absurd h hslash

/-! ## Trailing blanks -/

theorem docChars_eq_nil : docChars cs = [] ↔ cs = [] := by
  fun_cases docChars cs <;> simp

theorem trimEnd_docChars (cs : List Char) : trimEnd (docChars cs) = docChars (trimEnd cs) := by
  have hslash : isBlank '\\' = false := by decide
  have hquote : isBlank '\x22' = false := by decide
  fun_induction docChars cs with
  | case1 => rfl
  | case2 cs ih => simp [trimEnd_cons, hslash, ih, docChars]
  | case3 cs ih => simp [trimEnd_cons, hslash, hquote, ih, docChars]
  | case4 c cs hc hquotes ih =>
    simp only [trimEnd_cons, ih, docChars_eq_nil]
    split
    · rfl
    · refine (docChars.eq_4 _ _ (fun h => absurd h hc) fun rest hc hrest => ?_).symm
      obtain ⟨blanks, hblanks⟩ := rdropWhile_prefix isBlank (l := cs)
      rw [show cs.rdropWhile isBlank = trimEnd cs from rfl, hrest] at hblanks
      exact hquotes _ hc hblanks.symm

/-! ## Lines -/

/-- Whether a character is printed as it is. -/
def isPlainChar (c : Char) : Bool := isSourceChar c && c ≠ '\x22' && c ≠ '\\'

def isPlainText (text : String) : Bool := text.toList.all isPlainChar

theorem isSourceChar_of_isPlainChar (h : isPlainChar c = true) : isSourceChar c = true :=
  (Bool.and_eq_true_iff.mp (Bool.and_eq_true_iff.mp h).1).1

theorem docChars_append (h : ∀ c ∈ cs, isPlainChar c = true) (rest : List Char) :
    docChars (cs ++ rest) = cs ++ docChars rest := by
  induction cs with
  | nil => rfl
  | cons c cs ih =>
    obtain ⟨hc, hcs⟩ := forall_mem_cons.mp h
    simp only [isPlainChar, Bool.and_eq_true, decide_eq_true_eq] at hc
    obtain ⟨⟨_, hquote⟩, hslash⟩ := hc
    rw [cons_append, docChars.eq_4 _ _ (fun h => absurd h hslash) fun _ h => absurd h hquote]
    rw [ih hcs, cons_append]

/-- The line that is printed for a line of a text. -/
def Line.escaped (l : Line) : Line := { l with text := String.ofList (docChars l.text.toList) }

theorem readDoc_line {l : Line} (h : isSourceText l.text = true) (rest : List Char) : readDoc (l.escaped.render.toList ++ rest) =
      (readDoc rest).map fun p => (l.render.toList ++ p.1, p.2) := by
  have hempty : l.escaped.text.isEmpty = l.text.isEmpty := by
    rw [Line.escaped, Bool.eq_iff_iff, String.isEmpty_iff, String.isEmpty_iff,
      ← String.toList_eq_nil_iff, ← String.toList_eq_nil_iff, String.toList_ofList, docChars_eq_nil]
  rw [Line.toList_render, Line.toList_render, hempty]
  split
  · exact readDoc_docChars (forall_mem_nil _) rest
  · have hblanks : ∀ c ∈ List.replicate (Line.indentWidth * l.depth) ' ', isPlainChar c = true :=
      fun c hc => by rw [eq_of_mem_replicate hc]; rfl
    have hread := readDoc_docChars (forall_mem_append.mpr
      ⟨fun c hc => isSourceChar_of_isPlainChar (hblanks c hc), all_eq_true.mp h⟩) rest
    rw [docChars_append hblanks] at hread
    simpa [Line.escaped] using hread

/-- Whether lines are printed for the lines of a text. -/
structure Escapes (ls raws : List Line) : Prop where
  printed : ls = raws.map Line.escaped
  source : ∀ l ∈ raws, isSourceText l.text = true

namespace Escapes

variable {ls raws ls' raws' : List Line} {texts : List String}

theorem append (h : Escapes ls raws) (h' : Escapes ls' raws') :
    Escapes (ls ++ ls') (raws ++ raws') :=
  ⟨by rw [h.printed, h'.printed, map_append], forall_mem_append.mpr ⟨h.source, h'.source⟩⟩

theorem block (h : Escapes ls raws) : Escapes (block ls) (block raws) := by
  refine ⟨?_, forall_mem_map.mpr h.source⟩
  rw [h.printed, Source.block, Source.block, map_map, map_map]
  rfl

theorem escape (h : ∀ text ∈ texts, isSourceText text = true) :
    Escapes (lines (texts.map fun text => String.ofList (docChars text.toList))) (lines texts) := by
  refine ⟨?_, forall_mem_map.mpr h⟩
  rw [lines, lines, map_map, map_map]
  rfl

theorem plain (h : ∀ text ∈ texts, isPlainText text = true) :
    Escapes (lines texts) (lines texts) := by
  have hall := escape fun text htext => all_eq_true.mpr fun c hc =>
    isSourceChar_of_isPlainChar (all_eq_true.mp (h text htext) c hc)
  rwa [map_congr_left (g := id) fun text htext => ?_, map_id] at hall
  have hsame := docChars_append (all_eq_true.mp (h text htext)) []
  rw [append_nil, docChars, append_nil] at hsame
  rw [hsame, String.ofList_toList]
  rfl

theorem reads (h : Escapes ls raws) (rest : List Char) : readDoc (chars ls ++ rest) =
    (readDoc rest).map fun p => (chars raws ++ p.1, p.2) := by
  obtain ⟨rfl, hsource⟩ := h
  induction raws with
  | nil => simp [chars]
  | cons l raws ih =>
    obtain ⟨hl, hraws⟩ := forall_mem_cons.mp hsource
    simp only [chars, map_cons, flatMap_cons, append_assoc] at ih ⊢
    rw [readDoc_line hl, ih hraws]
    simp [Function.comp_def]

end Escapes

namespace PackageDoc

variable {packageName : String} {d : PackageDoc}

/-- What a comment says. Its lines have no blank in front, if there was one, and none at the end. -/
def saidComment (d : PackageDoc) : List Line :=
  match d.comment? with
  | none => []
  | some text =>
    if text.isEmpty then []
    else lines ((textLines text).map fun cs => String.ofList (trimEnd (dropBlank cs))) ++ lines [""]

/-- What the documentation of a package says. -/
def said (packageName : String) (d : PackageDoc) : List Line :=
  lines ["", s!"Package {packageName} is a generated protocol buffer package.", ""] ++
    d.saidComment ++ lines ["It is generated from these files:"] ++ block (lines d.files) ++
    lines ["", "It has these top-level messages:"] ++ block (lines d.messages)

theorem mem_of_mem_textLines {text : String} (hcs : cs ∈ textLines text)
    (hc : c ∈ trimEnd (dropBlank cs)) : c ∈ text.toList := by
  have hblank : (dropBlank cs).Sublist cs := by
    unfold dropBlank
    split
    · exact sublist_cons_self _ _
    · exact .refl _
  have hline := (sublist_of_mem_splitOn hcs).trans ( rdropWhile_prefix (· == '\n') _).sublist
  exact (hblank.trans hline).subset (( rdropWhile_prefix isBlank _).subset hc)

theorem escapes_comment (h : ∀ text ∈ d.comment?, isSourceText text = true) :
    Escapes d.commentLines d.saidComment := by
  unfold commentLines saidComment
  cases htext : d.comment? with
  | none => exact ⟨rfl, by simp⟩
  | some text =>
    dsimp only
    split
    · exact ⟨rfl, by simp⟩
    · refine Escapes.append ?_ (.plain (by decide))
      have hlines := @Escapes.escape ((textLines text).map fun cs =>
        String.ofList (trimEnd (dropBlank cs))) ?_
      · simpa [Function.comp_def, trimEnd_docChars] using hlines
      · refine forall_mem_map.mpr fun cs hcs => all_eq_true.mpr fun c hc => ?_
        rw [String.toList_ofList] at hc
        exact all_eq_true.mp (h text htext) c (mem_of_mem_textLines hcs hc)

/-- The documentation of a package is read up to its last line, whatever the comment and the names
of the files are, and says what it is meant to say. -/
theorem printed_reads_back
    (hname : ∀ name ∈ packageName :: d.messages, isPlainText name = true)
    (hcomment : ∀ text ∈ d.comment?, isSourceText text = true)
    (hfiles : ∀ file ∈ d.files, isSourceText file = true) :
    ∃ inner, chars (d.printed packageName) = '\x22' :: '\x22' :: '\x22' :: inner ∧
      readDoc inner = some (chars (d.said packageName), ['\n', '\n']) := by
  obtain ⟨hname, hmessages⟩ := forall_mem_cons.mp hname
  have hpackage : ∀ text ∈ ["", s!"Package {packageName} is a generated protocol buffer package.", ""],
      isPlainText text = true := by
    have happend {a b : String} (ha : isPlainText a = true) (hb : isPlainText b = true) :
        isPlainText (a ++ b) = true := by
      rw [isPlainText, String.toList_append, all_append]
      exact Bool.and_eq_true_iff.mpr ⟨ha, hb⟩
    refine forall_mem_cons.mpr ⟨rfl, forall_mem_cons.mpr ⟨?_, by decide⟩⟩
    exact happend (happend (by decide) hname) (by decide)
  have hall := (((((Escapes.plain hpackage).append (escapes_comment hcomment)).append
    (@Escapes.plain ["It is generated from these files:"] (by decide))).append
    (Escapes.escape hfiles).block).append
    (@Escapes.plain ["", "It has these top-level messages:"] (by decide))).append
    (Escapes.plain hmessages).block
  have hread := hall.reads ['\x22', '\x22', '\x22', '\n', '\n']
  rw [readDoc.eq_2, Option.map_some, append_nil] at hread
  refine ⟨_, ?_, hread⟩
  simp only [printed, chars, lines, map_cons, cons_append, flatMap_cons, flatMap_append, append_assoc]
  rfl

/-- A comment with quotes and backslashes at the end of its lines, and a file named by quotes. -/
def quoted : PackageDoc where
  comment? := some " a\\\"\"\"\"\\ \n\"\"\\\n"
  files := ["\"\"\""]
  messages := ["M"]

theorem printed_reads_back_quoted :
    ∃ inner, chars (quoted.printed "p") = '\x22' :: '\x22' :: '\x22' :: inner ∧
      readDoc inner = some (chars (lines ["", "Package p is a generated protocol buffer package.", "",
        "a\\\"\"\"\"\\", "\"\"\\", "", "It is generated from these files:"] ++ block (lines ["\"\"\""]) ++
        lines ["", "It has these top-level messages:"] ++ block (lines ["M"])), ['\n', '\n']) :=
  printed_reads_back (d := quoted) (by decide) (by rintro _ ⟨⟩; decide) (by decide)

end PackageDoc

end Protobind
