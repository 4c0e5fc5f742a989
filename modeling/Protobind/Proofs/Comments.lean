import Protobind.Proofs.Linking

/-!
# Comments in modules

The lines of a comment are printed behind a `#`, and the text of a module is split into lines again
before it is written. A comment is split at line feeds, the text at every kind of line break, so a
line of a comment may become several lines, and only the first of them is sure to be a comment.
-/

namespace Protobind

open List

variable {c : Char} {cs : List Char}

namespace Text

/-- Whether the first character of a line that is not blank starts a comment. -/
def isComment (line : List Char) : Bool := (line.dropWhile isBlank).head? == some '#'

/-- The lines of a text that are no comments. -/
def code (cs : List Char) : List (List Char) := (splitLines cs).filter fun line => !isComment line

/-! ## Lines -/

theorem splitLines_cons (hc : isLineBreak c = false) (cs : List Char) :
    splitLines (c :: cs) = (c :: (splitLines cs).headD []) :: (splitLines cs).tail := by
  have hreturn : c ≠ '\r' := by rintro rfl; cases hc
  rw [splitLines.eq_3 _ _ (fun _ h => absurd h hreturn), hc]
  cases splitLines cs <;> rfl

theorem splitLines_break (hc : isLineBreak c = true) (h : c = '\r' → cs.head? ≠ some '\n') :
    splitLines (c :: cs) = [] :: splitLines cs := by
  rw [splitLines.eq_3 _ _ (fun _ hr hcs => h hr (by rw [hcs]; rfl)), hc]
  rfl

theorem splitLines_ne_nil (h : cs ≠ []) : splitLines cs ≠ [] := by
  fun_induction splitLines cs <;> simp_all

theorem splitLines_append_newline (bs : List Char) : ∀ as : List Char,
    splitLines (as ++ '\n' :: bs) = splitLines (as ++ ['\n']) ++ splitLines bs
  | [] => splitLines_break rfl (by simp)
  | c :: as => by
    have ih := splitLines_append_newline bs as
    cases hc : isLineBreak c with
    | false =>
      have hne : splitLines (as ++ ['\n']) ≠ [] := splitLines_ne_nil (by simp)
      obtain ⟨line, lines, hlines⟩ := exists_cons_of_ne_nil hne
      simp only [cons_append, splitLines_cons hc, ih, hlines]
      rfl
    | true =>
      by_cases hpair : c = '\r' ∧ (as ++ ['\n']).head? = some '\n'
      · obtain ⟨rfl, has⟩ := hpair
        rcases as with _ | ⟨d, as⟩
        · rfl
        · obtain rfl : d = '\n' := Option.some.inj has
          exact congrArg ([] :: ·) (splitLines_append_newline bs as)
      · have hhead : (as ++ '\n' :: bs).head? = (as ++ ['\n']).head? := by cases as <;> rfl
        rw [not_and] at hpair
        rw [cons_append, cons_append, splitLines_break hc (hhead ▸ hpair),
          splitLines_break hc hpair, ih]
        rfl

theorem not_isLineBreak_of_mem_splitLines (cs : List Char) :
    ∀ line ∈ splitLines cs, ∀ c ∈ line, isLineBreak c = false := by
  fun_induction splitLines cs <;> grind

theorem splitLines_line {line : List Char} (h : ∀ c ∈ line, isLineBreak c = false) :
    splitLines (line ++ ['\n']) = [line] := by
  induction line with
  | nil => rfl
  | cons c line ih =>
    rw [cons_append, splitLines_cons (h c mem_cons_self), ih fun d hd => h d (mem_cons_of_mem c hd)]
    rfl

theorem splitLines_concat_newline : ∀ {cs : List Char} {c : Char}, cs.getLast? = some c →
    isLineBreak c = false → splitLines (cs ++ ['\n']) = splitLines cs
  | [], _, h, _ => by cases h
  | [d], _, h, hc => by
    obtain rfl : d = _ := Option.some.inj h
    exact (splitLines_line (by simpa using hc)).trans (splitLines_cons hc []).symm
  | d :: e :: cs, c, h, hc => by
    have htail : (e :: cs).getLast? = some c := by rwa [getLast?_cons_cons] at h
    have ih := splitLines_concat_newline htail hc
    cases hd : isLineBreak d with
    | false => rw [cons_append, splitLines_cons hd, splitLines_cons hd, ih]
    | true =>
      by_cases hpair : d = '\r' ∧ e = '\n'
      · obtain ⟨rfl, rfl⟩ := hpair
        rcases cs with _ | ⟨f, cs⟩
        · obtain rfl := Option.some.inj htail
          cases hc
        · exact congrArg ([] :: ·)
            (splitLines_concat_newline (by rwa [getLast?_cons_cons] at htail) hc)
      · have hhead (cs : List Char) : d = '\r' → (e :: cs).head? ≠ some '\n' := by
          simpa using hpair
        rw [splitLines_break hd (hhead cs), ← ih]
        exact splitLines_break hd (hhead (cs ++ ['\n']))

theorem tail_splitLines_cons (hc : isLineBreak c = false) (cs : List Char) :
    (splitLines (c :: cs)).tail = (splitLines cs).tail := by
  rw [splitLines_cons hc, tail_cons]

theorem trimEnd_cons (c : Char) (cs : List Char) :
    trimEnd (c :: cs) = if trimEnd cs = [] ∧ isBlank c = true then [] else c :: trimEnd cs := by
  unfold trimEnd dropEndWhile
  rw [reverse_cons, dropWhile_append]
  by_cases hcs : dropWhile isBlank cs.reverse = []
  · by_cases hc : isBlank c = true <;> simp [hcs, hc]
  · simp [hcs]

theorem trimEnd_mark (cs : List Char) : trimEnd ('#' :: cs) = '#' :: trimEnd cs := by
  rw [trimEnd_cons, if_neg fun h => absurd h.2 (by decide)]

theorem not_isLineBreak_of_not_isBlank (h : isBlank c = false) : isLineBreak c = false := by
  simp [isBlank, isLineBreak] at *
  omega

theorem not_isBlank_of_getLast?_trimEnd (h : (trimEnd cs).getLast? = some c) :
    isBlank c = false := by
  rw [trimEnd, dropEndWhile, getLast?_reverse] at h
  have hhead := head?_dropWhile_not isBlank cs.reverse
  rwa [h] at hhead

/-! ## Code -/

theorem code_append_newline (as bs : List Char) :
    code (as ++ '\n' :: bs) = code (as ++ ['\n']) ++ code bs := by
  unfold code
  rw [splitLines_append_newline, filter_append]

theorem tail_splitLines_trimEnd_space (cs : List Char) :
    (splitLines (trimEnd (' ' :: cs))).tail = (splitLines (trimEnd cs)).tail := by
  rw [trimEnd_cons]
  split
  · rename_i h
    rw [h.1]
  · exact tail_splitLines_cons rfl _

theorem tail_splitLines_trimEnd_dropBlank (cs : List Char) :
    (splitLines (trimEnd (Source.dropBlank cs))).tail = (splitLines (trimEnd cs)).tail := by
  unfold Source.dropBlank
  split
  · exact (tail_splitLines_trimEnd_space _).symm
  · rfl

/-- The lines of a line of a comment: the first one is a comment, the others are what stands behind
the line breaks. -/
theorem code_comment (indent : Nat) (cs : List Char) :
    code (List.replicate indent ' ' ++ trimEnd ('#' :: ' ' :: Source.dropBlank cs) ++ ['\n']) =
      (splitLines (trimEnd cs)).tail.filter fun line => !isComment line := by
  have hmark := trimEnd_mark (' ' :: Source.dropBlank cs)
  obtain ⟨c, hlast⟩ := Option.ne_none_iff_exists'.mp
    (mt getLast?_eq_none_iff.mp (hmark ▸ cons_ne_nil '#' _))
  have hend := splitLines_concat_newline hlast
    (not_isLineBreak_of_not_isBlank (not_isBlank_of_getLast?_trimEnd hlast))
  have hlines : ∃ first, isComment first = true ∧
      splitLines (List.replicate indent ' ' ++ trimEnd ('#' :: ' ' :: Source.dropBlank cs) ++
        ['\n']) = first :: (splitLines (trimEnd cs)).tail := by
    induction indent with
    | zero =>
      have hsplit := splitLines_cons (c := '#') rfl (trimEnd (' ' :: Source.dropBlank cs))
      rw [tail_splitLines_trimEnd_space, tail_splitLines_trimEnd_dropBlank] at hsplit
      exact ⟨_, rfl, hend.trans (hmark ▸ hsplit)⟩
    | succ indent ih =>
      obtain ⟨first, hfirst, hlines⟩ := ih
      refine ⟨' ' :: first, hfirst, ?_⟩
      rw [replicate_succ, cons_append, cons_append, splitLines_cons rfl, hlines]
      rfl
  obtain ⟨first, hfirst, hlines⟩ := hlines
  rw [code, hlines, filter_cons_of_neg (by simp [hfirst])]

end Text

namespace Line

/-- The code of a line that stands at a depth. -/
def code (depth : Nat) (l : Line) : List (List Char) :=
  Text.code { l with depth := l.depth + depth }.render.toList

theorem toList_pushn (n : Nat) (c : Char) : ("".pushn c n).toList = List.replicate n c := by
  induction n with
  | zero => rfl
  | succ n ih =>
    have hpush : "".pushn c (n + 1) = ("".pushn c n).push c := rfl
    rw [hpush, String.toList_push, ih, replicate_succ']

theorem toList_render (l : Line) : l.render.toList =
    (if l.text.isEmpty then [] else List.replicate (indentWidth * l.depth) ' ' ++ l.text.toList) ++
      ['\n'] := by
  unfold render
  split
  · rfl
  · simp [toList_pushn]

end Line

namespace Source

def code (depth : Nat) (ls : List Line) : List (List Char) := ls.flatMap (Line.code depth)

theorem code_block (depth : Nat) (ls : List Line) :
    code depth (block ls) = code (depth + 1) ls := by
  simp only [code, block, flatMap_map]
  refine flatMap_congr fun l _ => ?_
  simp only [Line.code, Nat.add_assoc, Nat.add_comm 1]

theorem code_render (ls : List Line) : Text.code (render ls).toList = code 0 ls := by
  induction ls with
  | nil => rfl
  | cons l ls ih =>
    have hrender : (render (l :: ls)).toList = l.render.toList ++ (render ls).toList := by
      simp [render]
    rw [hrender, l.toList_render, append_assoc, singleton_append,
      Text.code_append_newline, ← l.toList_render, ih]
    rfl

theorem code_append (depth : Nat) (ls more : List Line) :
    code depth (ls ++ more) = code depth ls ++ code depth more := flatMap_append

/-- Whether what stands behind a line break in a line of a comment is a comment as well. -/
def Quiet (comment? : Option String) : Prop :=
  ∀ text ∈ comment?, ∀ cs ∈ textLines text, ∀ part ∈ (Text.splitLines (Text.trimEnd cs)).tail,
    Text.isComment part = true

/-- Whether lines have the code of others and possibly more, and no more if and only if a condition
holds. -/
structure Adds (ls less : List Line) (quiet : Prop) : Prop where
  sublist : ∀ depth, (code depth less).Sublist (code depth ls)
  eq_iff : ∀ depth, code depth ls = code depth less ↔ quiet

namespace Adds

variable {ls less more fewer : List Line} {p q : Prop}

theorem append (h : Adds ls less p) (h' : Adds more fewer q) :
    Adds (ls ++ more) (less ++ fewer) (p ∧ q) where
  sublist depth := by
    simp only [code_append]
    exact (h.sublist depth).append (h'.sublist depth)
  eq_iff depth := by
    rw [← h.eq_iff depth, ← h'.eq_iff depth, code_append, code_append]
    refine ⟨fun heq => ?_, fun ⟨heq, heq'⟩ => heq ▸ heq' ▸ rfl⟩
    have hlength := congrArg List.length heq
    rw [length_append, length_append] at hlength
    have hle := (h.sublist depth).length_le
    have hle' := (h'.sublist depth).length_le
    exact ⟨((h.sublist depth).eq_of_length (by omega)).symm,
      ((h'.sublist depth).eq_of_length (by omega)).symm⟩

theorem congr (h : Adds ls less p) (hpq : p ↔ q) : Adds ls less q :=
  ⟨h.sublist, fun depth => (h.eq_iff depth).trans hpq⟩

theorem refl (ls : List Line) : Adds ls ls True :=
  ⟨fun _ => List.Sublist.refl _, fun _ => iff_of_true rfl trivial⟩

theorem append_right (h : Adds ls less p) (more : List Line) : Adds (ls ++ more) (less ++ more) p :=
  (h.append (refl more)).congr (and_iff_left trivial)

theorem append_left (h : Adds ls less p) (more : List Line) : Adds (more ++ ls) (more ++ less) p :=
  ((refl more).append h).congr (and_iff_right trivial)

theorem block (h : Adds ls less p) : Adds (block ls) (block less) p where
  sublist depth := by
    rw [code_block, code_block]
    exact h.sublist (depth + 1)
  eq_iff depth := by
    rw [code_block, code_block]
    exact h.eq_iff (depth + 1)

theorem flatMap {α : Type} {f g : α → List Line} {quiet : α → Prop} (xs : List α)
    (h : ∀ x, Adds (f x) (g x) (quiet x)) :
    Adds (xs.flatMap f) (xs.flatMap g) (∀ x ∈ xs, quiet x) := by
  induction xs with
  | nil => exact (refl []).congr (by simp)
  | cons x xs ih => exact ((h x).append ih).congr (by simp)

end Adds

theorem code_comment (depth : Nat) (text : String) : code depth (comment text) =
    (textLines text).flatMap fun cs =>
      (Text.splitLines (Text.trimEnd cs)).tail.filter fun part => !Text.isComment part := by
  simp only [code, comment, lines, flatMap_map]
  refine flatMap_congr fun cs _ => ?_
  rw [← Text.code_comment (Line.indentWidth * (0 + depth)) cs, Line.code, Line.toList_render,
    Text.trimEnd_mark, if_neg (by simp), String.toList_ofList]

theorem adds_commentLines (comment? : Option String) :
    Adds (commentLines comment?) [] (Quiet comment?) where
  sublist _ := nil_sublist _
  eq_iff depth := by
    have hcode (text : String) : code depth (comment text) = [] ↔ Quiet (some text) := by
      simp [code_comment, Quiet, filter_eq_nil_iff]
    cases comment? with
    | none => simp [commentLines, Quiet]
    | some text =>
      rw [← hcode, commentLines]
      split
      · rename_i h
        obtain rfl := String.isEmpty_iff.mp h
        exact iff_of_true rfl ((code_comment depth "").trans rfl)
      · exact Iff.rfl

end Source

/-! ## Plans -/

open Source

theorem Comments.adds_linesAt (comments : Comments) (path : String) :
    Adds (comments.linesAt path) (linesAt [] path) (Source.Quiet (comments.get? path)) :=
  adds_commentLines _

def EnumPlan.Quiet (comments : Comments) (e : EnumPlan) : Prop :=
  Source.Quiet (comments.get? e.path) ∧ ∀ c ∈ e.constants, Source.Quiet (comments.get? c.path)

def MessagePlan.Quiet (comments : Comments) (m : MessagePlan) : Prop :=
  Source.Quiet (comments.get? m.path) ∧ (∀ f ∈ m.fields, Source.Quiet (comments.get? f.path)) ∧
    ∀ g ∈ m.groups, Source.Quiet (comments.get? g.path)

namespace ModulePlan

/-- Whether no comment of a plan goes on behind a line break without being a comment there. -/
def Quiet (p : ModulePlan) : Prop :=
  (∀ e ∈ p.enums, e.Quiet p.comments) ∧ ∀ m ∈ p.messages, m.Quiet p.comments

/-- A plan without the comments on what it declares. -/
def plain (p : ModulePlan) : ModulePlan := { p with comments := [] }

end ModulePlan

variable (comments : Comments) (holder : String)

theorem EnumPlan.adds_printed (e : EnumPlan) :
    Adds (e.printed comments holder) (e.printed [] holder) (e.Quiet comments) := by
  have hconstants := Adds.flatMap e.constants fun c =>
    (comments.adds_linesAt c.path).append_right (lines [s!"{c.name} = {e.name}({c.number})"])
  unfold EnumPlan.printed
  simp only [append_assoc]
  exact (comments.adds_linesAt e.path).append
    (hconstants.append_right _ |>.append_left _ |>.append_left _ |>.append_left _)

namespace MessagePlan

variable (m : MessagePlan)

theorem adds_tableLines : Adds (m.tableLines comments) (m.tableLines [])
    (∀ f ∈ m.fields, Source.Quiet (comments.get? f.path)) := by
  have hfields := Adds.flatMap m.fields fun f =>
    (comments.adds_linesAt f.path).append_right (lines [f.entry.source ++ ","])
  unfold tableLines
  exact (hfields.block.append_left _).append_right _

theorem adds_classLines : Adds (m.classLines comments holder) (m.classLines [] holder)
    (Source.Quiet (comments.get? m.path) ∧
      ∀ f ∈ m.fields, Source.Quiet (comments.get? f.path)) := by
  unfold classLines
  simp only [append_assoc]
  exact (comments.adds_linesAt m.path).append
    ((m.adds_tableLines comments |>.append_right _).block.append_right _ |>.append_left _)

theorem adds_oneofCode : Adds (m.oneofCode comments) (m.oneofCode [])
    (∀ g ∈ m.groups, Source.Quiet (comments.get? g.path)) := by
  have hgroups := Adds.flatMap m.groups fun g =>
    (comments.adds_linesAt g.path).append_right (g.group.classLines m.name)
  unfold oneofCode
  split
  · rename_i h
    exact (Adds.refl []).congr (by simp [List.isEmpty_iff.mp h])
  · exact hgroups.append_right _

theorem adds_printed :
    Adds (m.printed comments holder) (m.printed [] holder) (m.Quiet comments) := by
  have hclass := m.adds_classLines comments holder
    |>.append_right m.rangeLines |>.append_right m.defaultLines
  exact (hclass.append (m.adds_oneofCode comments)).congr and_assoc

end MessagePlan

theorem ModulePlan.adds_bodyLines (compressed? : Option Bytes) (p : ModulePlan) :
    Adds (p.bodyLines compressed?) (p.plain.bodyLines compressed?) p.Quiet := by
  have henums := Adds.flatMap p.enums fun e => e.adds_printed p.comments p.variableName
  have hmessages := Adds.flatMap p.messages fun m => m.adds_printed p.comments p.variableName
  unfold bodyLines
  simp only [append_assoc]
  exact (henums.append (hmessages.append_right _)).append_left _

theorem Source.code_lines (texts : List (List Char))
    (h : ∀ cs ∈ texts, ∀ c ∈ cs, Text.isLineBreak c = false) :
    code 0 (lines (texts.map String.ofList)) = texts.filter fun cs => !Text.isComment cs := by
  induction texts with
  | nil => rfl
  | cons cs texts ih =>
    have hline : Line.code 0 { text := String.ofList cs } = [cs].filter (!Text.isComment ·) := by
      rw [Line.code, Line.toList_render, Text.code, ← Text.splitLines_line (h cs mem_cons_self)]
      cases cs <;> simp
    have hrest := ih fun ds hds => h ds (mem_cons_of_mem cs hds)
    rw [← singleton_append, filter_append, ← hline, ← hrest]
    rfl

namespace ModulePlan

theorem code_render (compressed? : Option Bytes) (p : ModulePlan) :
    Text.code (p.render compressed?).toList =
      Source.code 0 p.headLines ++ Source.code 0 (p.bodyLines compressed?) := by
  rw [render, Source.code_render, code_append, ← Source.code_render (p.bodyLines compressed?),
    resplit, relines, Source.code_lines _ (Text.not_isLineBreak_of_mem_splitLines _), Text.code]

/-- The code of a module, with the compressed form of the declaration that it holds. -/
def code (compress : Bytes → Option Bytes) (p : ModulePlan) : List (List Char) :=
  Text.code (p.render (compress p.descriptor)).toList

/-- Among modules that differ in their comments only, a module has the code of one with quiet
comments if and only if its own comments are quiet. -/
theorem code_eq_iff {p p' : ModulePlan} (h : p.plain = p'.plain) (hquiet : p'.Quiet)
    (compress : Bytes → Option Bytes) : p.code compress = p'.code compress ↔ p.Quiet := by
  have hdescriptor : p.plain.descriptor = p'.plain.descriptor := congrArg ModulePlan.descriptor h
  have hhead : p.plain.headLines = p'.plain.headLines := congrArg ModulePlan.headLines h
  change p.descriptor = p'.descriptor at hdescriptor
  change p.headLines = p'.headLines at hhead
  have hbody := ((p'.adds_bodyLines (compress p'.descriptor)).eq_iff 0).mpr hquiet
  rw [code, code, code_render, code_render, hdescriptor, hhead, hbody, ← h, append_cancel_left_eq]
  exact (p.adds_bodyLines _).eq_iff 0

end ModulePlan

/-! ## Requests -/

namespace FileDecl

def packageComment? (d : FileDecl) : Option String := d.comments.package?

/-- A file without the comments on its declarations. -/
def plain (d : FileDecl) : FileDecl :=
  { d with locations := d.packageComment?.toList.map fun c =>
      { path := [Comments.packagePath], comment? := some c } }

theorem packageComment?_plain (d : FileDecl) : d.plain.packageComment? = d.packageComment? := by
  unfold plain
  cases hcomment : d.packageComment? <;> rfl

end FileDecl

namespace Request

/-- The plans of the modules of all files of a request, as they are before they are checked. -/
def modules (r : Request) : Except GenerateError (List (NodeId × ModulePlan)) :=
  (r.bare.context.1.bind Context.modules).map fun modules =>
    modules.map fun m => (m.1, m.2.annotated r.comments)

/-- A request without the comments on the declarations of its files. -/
def plain (r : Request) : Request := { r with files := r.files.map FileDecl.plain }

theorem bare_plain (r : Request) : r.plain.bare = r.bare := by
  simp only [bare, plain, map_map]
  rfl

theorem package?_comments_plain (r : Request) (name : String) :
    (r.plain.comments name).package? = (r.comments name).package? := by
  have hname : ((·.name == name) ∘ FileDecl.plain) = (·.name == name) := rfl
  unfold comments plain
  rw [← map_reverse, find?_map, hname]
  cases r.files.reverse.find? (·.name == name) with
  | none => rfl
  | some d => exact d.packageComment?_plain

theorem annotated_plain {r r' : Request} (h : r.plain = r'.plain) (p : ModulePlan) :
    (p.annotated r.comments).plain = (p.annotated r'.comments).plain := by
  have hpackage : (r.comments p.file).package? = (r'.comments p.file).package? := by
    rw [← package?_comments_plain, h, package?_comments_plain]
  simp only [ModulePlan.annotated, ModulePlan.plain, hpackage]

theorem plans_subset_modules {r : Request} {plans : List ModulePlan} (h : r.plans.1 = .ok plans) :
    ∃ modules, r.modules = .ok modules ∧ ∀ p ∈ plans, ∃ file, (file, p) ∈ modules := by
  unfold Request.plans at h
  split at h
  · rename_i ctx _ hctx
    have hrun : ∃ found s, Planner.planFiles ctx r.comments ctx.files {} = .ok found s := by
      unfold Context.plans at h
      split at h
      · rename_i hrun
        exact ⟨_, _, hrun⟩
      · cases h
    obtain ⟨_, _, hrun⟩ := hrun
    obtain ⟨modules, hmodules, _⟩ := Planner.planEach_of_planFiles hrun
    refine ⟨modules.map fun m => (m.1, m.2.annotated r.comments), ?_, fun p hp => ?_⟩
    · simp [Request.modules, hctx, Except.bind, Except.map, Context.modules, EStateM.run, hmodules]
    · obtain ⟨file, q, hq, rfl⟩ := Protobind.plans_subset_modules hmodules h p hp
      exact ⟨file, mem_map.mpr ⟨(file, q), hq, rfl⟩⟩
  · cases h

/-- Whether requests fail in the same way or have modules of the same files, where a module has the
code of one with quiet comments if and only if its own comments are quiet. -/
def AgreeIfQuiet (compress : Bytes → Option Bytes) :
    Except GenerateError (List (NodeId × ModulePlan)) →
      Except GenerateError (List (NodeId × ModulePlan)) → Prop
  | .ok modules, .ok modules' =>
    Forall₂ (fun m m' => m.1 = m'.1 ∧ m.2.outputName = m'.2.outputName ∧
      (m'.2.Quiet → (m.2.code compress = m'.2.code compress ↔ m.2.Quiet))) modules modules'
  | .error e, .error e' => e = e'
  | _, _ => False

/-- Requests that differ only in the comments on declarations have modules with the same code, as
long as the comments are quiet and in no other case. The modules that a request is answered with are
among these modules. -/
theorem code_eq_iff_quiet {r r' : Request} (h : r.plain = r'.plain)
    (compress : Bytes → Option Bytes) :
    AgreeIfQuiet compress r.modules r'.modules ∧
      ∀ plans, r.plans.1 = .ok plans →
        ∃ modules, r.modules = .ok modules ∧ ∀ p ∈ plans, ∃ file, (file, p) ∈ modules := by
  refine ⟨?_, fun _ => plans_subset_modules⟩
  have hbare : r.bare = r'.bare := by rw [← bare_plain, h, bare_plain]
  unfold modules
  rw [hbare]
  cases r'.bare.context.1.bind Context.modules with
  | error e => exact rfl
  | ok modules =>
    refine forall₂_map_left_iff.mpr (forall₂_map_right_iff.mpr (forall₂_same.mpr fun m _ => ?_))
    exact ⟨rfl, rfl, fun hquiet => ModulePlan.code_eq_iff (annotated_plain h m.2) hquiet compress⟩

/-- A request for a file with one message, which has a comment. -/
def commented (comment : String) : Request where
  files := [{ name? := some "a.proto", messages := [{ name? := some "M" }]
              locations := [{ path := [4, 0], comment? := some comment }] }]
  generate := ["a.proto"]

/-- A comment with a line separator and one with a line feed in its place. Only the latter is
quiet. -/
theorem code_eq_iff_quiet_separator :
    ((commented "A\u2028pass").plain = (commented "A\npass").plain ∧
      ¬Source.Quiet (some "A\u2028pass") ∧ Source.Quiet (some "A\npass")) ∧
    AgreeIfQuiet some (commented "A\u2028pass").modules (commented "A\npass").modules := by
  have hplain : (commented "A\u2028pass").plain = (commented "A\npass").plain := rfl
  exact ⟨⟨hplain, by unfold Source.Quiet; decide, by unfold Source.Quiet; decide⟩,
    (code_eq_iff_quiet hplain some).1⟩

end Request

end Protobind
