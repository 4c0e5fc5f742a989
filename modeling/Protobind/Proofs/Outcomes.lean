import Protobind.Main
import Protobind.Proofs.AppendedPlans

/-!
# How a run ends

A run ends with one module for each name that was asked for, in this order, with a report, or
without a report. The last one has a cause in the request, one of a few defects (`Request.Defect`).
-/

namespace Protobind

open List Arena Dictionary NodeKind

variable {α : Type} {ctx : Context} {f : FileNode} {id : NodeId} {plan : ModulePlan} {r : Request}
  {s s' : PlanState}

/-- Whether a computation ends in something that `P` tells, or in an error that `Q` tells. -/
inductive Ends {ε α : Type} (P : α → Prop) (Q : ε → Prop) : Except ε α → Prop
  | ok {a : α} : P a → Ends P Q (.ok a)
  | error {e : ε} : Q e → Ends P Q (.error e)

section

variable {ε β : Type} {P : α → Prop} {P' : β → Prop} {Q : ε → Prop} {x : Except ε α}

theorem Ends.of_ok {a : α} (hx : Ends P Q x) (h : x = .ok a) : P a := by
  cases h ▸ hx with
  | ok ha => exact ha

theorem Ends.of_error {e : ε} (hx : Ends P Q x) (h : x = .error e) : Q e := by
  cases h ▸ hx with
  | error he => exact he

theorem Ends.bind {f : α → Except ε β} (hx : Ends P Q x)
    (hf : ∀ a, P a → Ends P' Q (f a)) : Ends P' Q (x >>= f) := by
  cases hx with
  | ok ha => exact hf _ ha
  | error he => exact .error he

theorem Ends.imp {Q' : ε → Prop} (h : Ends P Q x) (hQ : ∀ e, Q e → Q' e) : Ends P Q' x := by
  cases h with
  | ok ha => exact .ok ha
  | error he => exact .error (hQ _ he)

theorem Ends.imp_ok {P' : α → Prop} (h : Ends P Q x) (hP : ∀ a, P a → P' a) : Ends P' Q x := by
  cases h with
  | ok ha => exact .ok (hP _ ha)
  | error he => exact .error he

theorem Ends.foldlM {f : α → β → Except ε α} : ∀ {xs : List β} {a : α},
    (∀ x ∈ xs, ∀ a, P a → Ends P Q (f a x)) → P a → Ends P Q (xs.foldlM f a)
  | [], _, _, h => .ok h
  | x :: xs, a, hstep, h => by
    rw [foldlM_cons]
    refine (hstep x mem_cons_self a h).bind fun b hb => ?_
    exact Ends.foldlM (fun y hy => hstep y (mem_cons_of_mem x hy)) hb

end

/-! ## Defects -/

/-- Whether a text has a quotation mark that does not come again. -/
def Options.Unclosed (cs : List Char) : Prop :=
  ∃ before mark after, cs = before ++ mark :: after ∧ isQuote mark = true ∧ mark ∉ after

/-- Whether a field of a floating-point type has a default that spells no number. -/
def FieldDecl.Unreadable (f : FieldDecl) : Prop :=
  (f.kind = .float ∨ f.kind = .double) ∧ f.default.isEmpty = false ∧
    isSpecialNumber f.default = false ∧ readDouble? f.default = none

/-- Whether the default of a field with 32 bits is too large for them, as it is or when it is written
with fewer digits. -/
def FieldDecl.Overflows (f : FieldDecl) : Prop :=
  f.kind = .float ∧ ∃ d, readDouble? f.default = some d ∧ (d.toSingle? = none ∨
    ∃ bits count, d.toSingle? = some bits ∧
      ((readDouble? ((Double.ofSingle bits).general count)).getD (.ofSingle bits)).toSingle? = none)

/-- Whether a field is one of a message of the run, or an extension. -/
def Context.HasField (ctx : Context) (decl : FieldDecl) : Prop :=
  ∃ node, (∃ m, ctx.arena.message? node = some m ∧ decl ∈ m.decl.fields) ∨
    ctx.arena.extension? node = some decl

/-- What is wrong with a request whose run ends without a report. -/
inductive Request.Defect (r : Request) : Fatal → Prop
  | quotation : Options.Unclosed r.parameter.toList → Defect r .unclosedQuotation
  | publicImport {decl : FileDecl} {i : Int} : decl ∈ r.files → i ∈ decl.publicDependencies →
      indexed? decl.dependencies i = none → Defect r .indexOutOfRange
  | oneof {ctx : Context} {node : NodeId} {m : MessageNode} {decl : FieldDecl} :
      r.bare.context.1 = .ok ctx → ctx.arena.message? node = some m → decl ∈ m.decl.fields →
      decl.inOneof = true → indexed? m.decl.oneofs decl.oneofIndex = none →
      Defect r .indexOutOfRange
  | number {ctx : Context} {decl : FieldDecl} : r.bare.context.1 = .ok ctx → ctx.HasField decl →
      decl.Unreadable → Defect r (.unreadableNumber decl.default)
  | single {ctx : Context} {decl : FieldDecl} : r.bare.context.1 = .ok ctx → ctx.HasField decl →
      decl.Overflows → Defect r .singleOverflow
  /-- A map holds itself: it is nested deeper than there are types. -/
  | map {ctx : Context} {file : NodeId} {decl : FieldDecl} : r.bare.context.1 = .ok ctx →
      ctx.HasField decl → Planner.NestsMaps ctx file (ctx.arena.size + 1) decl → Defect r .endlessMap
  | name {name : String} : name ∈ r.generate → '\x00' ∈ (Name.outputFile name).toList →
      Defect r .nullInName
  | source {ctx : Context} {id : NodeId} {f : FileNode} {s s' : PlanState} {plan : ModulePlan} :
      r.bare.context.1 = .ok ctx → ctx.arena.file? id = some f → f.decl.name ∈ r.generate →
      Planner.planModule ctx id f s = .ok plan s' →
      '\x00' ∈ (plan.annotated r.comments).chars none → Defect r .nullInSource

/-- Whether an error is reported, or has a cause in the request. -/
def Request.Explains (r : Request) (e : GenerateError) : Prop := ∀ x, e = .fatal x → r.Defect x

theorem Request.explains_reported (r : Request) (e : CompileError) : r.Explains (.reported e) :=
  fun _ he => by cases he

/-- The quotation mark that an argument waits for. -/
def Options.Lexer.awaited : Lexer → List Char
  | .quoted _ mark => [mark]
  | _ => []

theorem Options.ends_split : ∀ (cs : List Char) (l : Lexer), l.awaited.all isQuote = true →
    Ends (fun _ => True) (fun e => e = .unclosedQuotation ∧ Unclosed (l.awaited ++ cs))
      (split l cs) := by
  have hcons {c : Char} {cs : List Char} (e : Fatal) :
      e = .unclosedQuotation ∧ Unclosed cs → e = .unclosedQuotation ∧ Unclosed (c :: cs) := by
    rintro ⟨he, before, mark, after, rfl, hmark⟩
    exact ⟨he, c :: before, mark, after, rfl, hmark⟩
  intro cs
  induction cs with
  | nil =>
    intro l hl
    cases l with
    | start => exact .ok trivial
    | plain read => exact .ok trivial
    | quoted read mark =>
      exact .error ⟨rfl, [], mark, [], rfl, by simpa [Lexer.awaited] using hl, not_mem_nil⟩
  | cons c cs ih =>
    intro l hl
    have hstart {read : List Char} :
        Ends (fun _ => True) (fun e => e = .unclosedQuotation ∧ Unclosed (c :: cs))
          (do pure (String.ofList read :: (← split .start cs)) : Except Fatal (List String)) :=
      ((ih .start rfl).imp hcons).bind fun _ _ => .ok trivial
    cases l with
    | start =>
      unfold split
      split
      · exact (ih .start rfl).imp hcons
      · split
        · rename_i hquote
          exact ih (.quoted [c] c) (by simp [Lexer.awaited, hquote])
        · exact (ih (.plain [c]) rfl).imp hcons
    | plain read =>
      unfold split
      split
      · exact hstart
      · exact (ih (.plain _) rfl).imp hcons
    | quoted read mark =>
      unfold split
      split
      · exact hstart.imp hcons
      · rename_i hne
        refine (ih (.quoted (read ++ [c]) mark) hl).imp fun e he => ⟨he.1, ?_⟩
        obtain ⟨before, other, after, heq, hquote, hafter⟩ := he.2
        cases before with
        | nil =>
          cases heq
          refine ⟨[], mark, c :: cs, rfl, hquote, ?_⟩
          simpa [Ne.symm (by simpa using hne : c ≠ mark)] using hafter
        | cons first before =>
          cases heq
          exact ⟨mark :: c :: before, other, after, rfl, hquote, hafter⟩

theorem ends_roundSingle (d : Double) :
    Ends (fun d' => ∃ bits, d.toSingle? = some bits ∧ d' = .ofSingle bits)
      (fun e => e = .fatal .singleOverflow ∧ d.toSingle? = none) (roundSingle d) := by
  unfold roundSingle
  cases hbits : d.toSingle? with
  | some bits => exact .ok ⟨bits, rfl, rfl⟩
  | none => exact .error ⟨rfl, rfl⟩

theorem ends_fewestDigitsFrom (single : Bool) (d : Double) : ∀ counts : List Nat,
    Ends (fun _ => True) (fun e => e = .fatal .singleOverflow ∧ single = true ∧
      ∃ count, ((readDouble? (d.general count)).getD d).toSingle? = none)
      (fewestDigitsFrom single d counts)
  | [] => .ok trivial
  | count :: counts => by
    unfold fewestDigitsFrom
    dsimp only
    split
    on_goal 1 =>
      rename_i hsingle
      refine ((ends_roundSingle _).imp fun e he => ⟨he.1, hsingle, count, he.2⟩).bind fun _ _ => ?_
    on_goal 2 => refine Ends.bind (P := fun _ => True) (.ok trivial) fun _ _ => ?_
    all_goals
      split
      · exact .ok trivial
      · exact ends_fewestDigitsFrom single d counts

namespace FieldDecl

variable (decl : FieldDecl)

/-- What keeps the tag of a field from being written: a value that its enum does not have, or a
default that is too large. -/
def TagError (e : GenerateError) : Prop :=
  (∃ x, e = .reported x) ∨ e = .fatal .singleOverflow ∧ decl.Overflows

theorem ends_fewestDigits {single : Bool} {d : Double} (hd : readDouble? decl.default = some d)
    (hkind : single = true → decl.kind = .float) :
    Ends (fun _ => True) decl.TagError (fewestDigits single d) := by
  unfold fewestDigits
  dsimp only
  split
  · rename_i hsingle
    refine ((ends_roundSingle d).imp fun e he => ?_).bind fun d' hd' => ?_
    · exact .inr ⟨he.1, hkind hsingle, d, hd, .inl he.2⟩
    · obtain ⟨bits, hbits, rfl⟩ := hd'
      refine (ends_fewestDigitsFrom single _ _).imp fun e he => ?_
      obtain ⟨he, _, count, hcount⟩ := he
      exact .inr ⟨he, hkind hsingle, d, hd, .inr ⟨bits, count, hbits, hcount⟩⟩
  · rename_i hsingle
    exact (ends_fewestDigitsFrom single d _).imp fun e he => absurd he.2.1 hsingle

theorem ends_tag (proto3 : Bool) (name? : Option String) (values? : Option (List (String × Int))) :
    Ends (fun _ => True) decl.TagError (decl.tag proto3 name? values?) := by
  have hdefault : Ends (fun _ => True) decl.TagError (decl.tagDefault values?) := by
    unfold tagDefault
    cases hkind : decl.kind
    case float | double =>
      dsimp only
      split
      · exact .ok trivial
      · split
        · rename_i d hd
          exact decl.ends_fewestDigits hd fun h => by simp_all
        · exact .ok trivial
    case enum =>
      cases values?.bind (lookupLast? decl.default) with
      | none => exact .error (.inl ⟨_, rfl⟩)
      | some n => exact .ok trivial
    all_goals exact .ok trivial
  refine Ends.bind (P := fun _ => True) ?_ fun _ _ => .ok trivial
  unfold shownDefault?
  split
  · exact hdefault.bind fun _ _ => .ok trivial
  · exact .ok trivial

theorem ends_defaultExpr (module? : Option String) (start : String) : Ends (fun _ => True)
    (fun e => e = .fatal (.unreadableNumber decl.default) ∧ decl.Unreadable)
    (decl.defaultExpr module? start) := by
  unfold defaultExpr
  split
  · exact .ok trivial
  · rename_i hempty
    cases hkind : decl.kind <;> dsimp only
    all_goals repeat' split
    all_goals try exact .ok trivial
    all_goals
      rename_i hinf hneg hnan _ hnone
      refine .error ⟨rfl, by simp [hkind], by simpa using hempty, ?_, hnone⟩
      simpa [isSpecialNumber, hinf, hneg] using hnan

end FieldDecl

/-! ## Building the context -/

theorem ends_publicNames (decl : FileDecl) : Ends (fun _ => True)
    (fun e => e = .fatal .indexOutOfRange ∧
      ∃ i ∈ decl.publicDependencies, indexed? decl.dependencies i = none) decl.publicNames := by
  have hall : ∀ is : List Int, Ends (fun _ => True)
      (fun e => e = .fatal .indexOutOfRange ∧ ∃ i ∈ is, indexed? decl.dependencies i = none)
      (indexedAll decl.dependencies is) := by
    intro is
    induction is with
    | nil => exact .ok trivial
    | cons i is ih =>
      unfold indexedAll
      cases hi : indexed? decl.dependencies i with
      | none => exact .error ⟨rfl, i, mem_cons_self, hi⟩
      | some name =>
        refine Ends.bind (ih.imp fun e he => ⟨he.1, ?_⟩) fun _ _ => .ok trivial
        exact he.2.imp fun _ h => ⟨mem_cons_of_mem i h.1, h.2⟩
  exact hall _

namespace Context

theorem ends_fileIn (r : Request) (a : Arena) (files : List NodeId) (name : String) :
    Ends (fun id => id ∈ files ∧ a.name id = name) r.Explains
      ((fileIn a files name).mapError .reported) := by
  unfold fileIn
  cases h : fileIn? a files name with
  | none => exact .error (r.explains_reported _)
  | some id => exact .ok (mem_of_fileIn? h)

/-- Whether the public imports of a file are files, or end in such an error. -/
def PublicEnds (a : Arena) (files : List NodeId) (Q : GenerateError → Prop) (decl : FileDecl) : Prop :=
  Ends (fun names => ∀ name ∈ names, Ends (· ∈ files) Q ((fileIn a files name).mapError .reported)) Q
    decl.publicNames

theorem publicEnds_explains {decl : FileDecl} (hdecl : decl ∈ r.files) (a : Arena)
    (files : List NodeId) : PublicEnds a files r.Explains decl := by
  refine ((ends_publicNames decl).imp fun e he x hx => ?_).imp_ok fun names _ name _ =>
    (ends_fileIn r a files name).imp_ok fun _ h => h.1
  cases he.1.symm.trans hx
  obtain ⟨i, hi, hnone⟩ := he.2
  exact .publicImport hdecl hi hnone

section

variable {a₀ : Arena} {files : List NodeId} {Q : GenerateError → Prop}
  (hfiles : ∀ id ∈ files, ∃ f, a₀.file? id = some f ∧ PublicEnds a₀ files Q f.decl)
include hfiles

theorem ends_publicFile {name : String}
    (h : Ends (· ∈ files) Q ((fileIn a₀ files name).mapError .reported)) :
    Ends (fun p => PublicEnds a₀ files Q p.2) Q (publicFile a₀ files name) := by
  refine h.bind fun id hid => ?_
  obtain ⟨f, hf, hends⟩ := hfiles id hid
  rw [hf]
  exact .ok hends

theorem ends_visit (via : NodeId) : ∀ (fuel : Nat) {p : NodeId × FileDecl} {s : Search},
    PublicEnds a₀ files Q p.2 → Ends (fun _ => True) Q (visit (publicFile a₀ files) via fuel p s)
  | 0, _, _, _ => .ok trivial
  | fuel + 1, _, _, hends => by
    unfold visit
    split
    · exact .ok trivial
    · refine hends.bind fun names hnames => Ends.foldlM (fun name hname _ _ => ?_) trivial
      exact (ends_publicFile hfiles (hnames name hname)).bind fun _ hp => ends_visit via fuel hp

theorem ends_hoists : Ends (Keeps bare a₀) Q (files.foldlM (hoistInto files) a₀) := by
  refine Ends.foldlM (fun file hfile a hkeep => ?_) (.refl a₀)
  obtain ⟨f, hf, hends⟩ := hfiles file hfile
  rw [hoistInto_keep (fun id hid => (hfiles id hid).imp fun _ h => h.1) hkeep.settled_of_bare hf]
  refine Ends.bind (P := fun _ => True) ?_ fun _ _ =>
    .ok (hkeep.trans (keeps_bare_addImports file _ a))
  refine hends.bind fun names hnames => Ends.bind (P := fun _ => True)
    (Ends.foldlM (fun name hname _ _ => ?_) trivial) fun _ _ => .ok trivial
  exact (ends_publicFile hfiles (hnames name hname)).bind fun p hp => ends_visit hfiles p.1 _ hp

end

/-- Whether the mark of a file `g` is its position among some ids, counted from `index`, or that of
`f` where it is not one of them. -/
def Marked (ids : List NodeId) (index : Nat) (id : NodeId) (f g : FileNode) : Prop :=
  (∃ n, ids[n]? = some id ∧ g.generate = true ∧ g.index = index + n) ∨
    id ∉ ids ∧ g.generate = f.generate ∧ g.index = f.index

/-- Files are marked under their names, each with the position of its name. -/
theorem ends_select (r : Request) {files : List NodeId} : ∀ (names : List String) (index : Nat)
    {a : Arena}, names.Nodup → AreFiles a files → Ends (fun b => ∃ ids : List NodeId,
      ids.map a.name = names ∧ (∀ id ∈ ids, id ∈ files) ∧ ∀ id f, a.file? id = some f →
        ∃ g, b.file? id = some g ∧ g.decl = f.decl ∧ Marked ids index id f g)
      r.Explains (select files index names a)
  | [], _, _, _, _ => .ok ⟨[], rfl, forall_mem_nil _,
      fun _ f hf => ⟨f, hf, rfl, .inr ⟨not_mem_nil, rfl, rfl⟩⟩⟩
  | name :: names, index, a, hnames, hfiles => by
    obtain ⟨hnot, hnames⟩ := nodup_cons.mp hnames
    unfold select
    refine (ends_fileIn r a files name).bind fun x hx => ?_
    have hkeep : Keeps settled a
        (a.modifyFile x fun f => { f with generate := true, index }) :=
      (Keeps.refl a).modifyFile x fun _ => rfl
    have hname {id : NodeId} (hid : id ∈ files) :
        (a.modifyFile x fun f => { f with generate := true, index }).name id = a.name id := by
      obtain ⟨f, hf⟩ := hfiles id hid
      exact name_keep hkeep hf
    refine (ends_select r names (index + 1) hnames fun id hid => ?_).imp_ok fun b hb => ?_
    · obtain ⟨f, hf⟩ := hfiles id hid
      exact (hkeep.settled_file? hf).imp fun _ h => h.1
    · obtain ⟨ids, rfl, hids, hmarks⟩ := hb
      rw [map_congr_left fun id hid => hname (hids id hid)] at hnot ⊢
      refine ⟨x :: ids, by rw [map_cons, hx.2], forall_mem_cons.mpr ⟨hx.1, hids⟩, fun id f hf => ?_⟩
      by_cases he : x = id
      · subst he
        obtain ⟨g, hg, hdecl, ⟨n, hn, _⟩ | ⟨_, hgenerate, hindex⟩⟩ :=
          hmarks x _ (file?_modifyFile hf _)
        · exact absurd (hx.2 ▸ mem_map_of_mem (mem_iff_getElem?.mpr ⟨n, hn⟩)) hnot
        · exact ⟨g, hg, hdecl, .inl ⟨0, rfl, hgenerate, hindex⟩⟩
      · obtain ⟨g, hg, hdecl, hmark⟩ :=
          hmarks id f ((file?_congr (get?_modifyFile_of_ne he _)).trans hf)
        refine ⟨g, hg, hdecl, hmark.imp ?_ ?_⟩
        · rintro ⟨n, hn, hgenerate, hindex⟩
          exact ⟨n + 1, hn, hgenerate, by omega⟩
        · rintro ⟨hid, hsame⟩
          exact ⟨by simp [hid, Ne.symm he], hsame⟩

theorem file?_namePackages (options : Options) : ∀ (ids : List NodeId) (used : List String)
    {a : Arena} {id : NodeId} {f : FileNode}, a.file? id = some f → ∃ packageName modulePath,
      (namePackages options ids (used, a)).2.file? id = some { f with packageName, modulePath }
  | [], _, _, _, f, hf => ⟨f.packageName, f.modulePath, hf⟩
  | x :: ids, used, a, id, f, hf => by
    unfold namePackages
    split
    · exact file?_namePackages options ids used hf
    · by_cases he : x = id
      · subst he
        obtain ⟨name, path, h⟩ := file?_namePackages options ids _ (file?_modifyFile hf _)
        exact ⟨name, path, h⟩
      · exact file?_namePackages options ids _ ((file?_congr (get?_modifyFile_of_ne he _)).trans hf)

/-- The files to generate are those that are marked, in the order of their marks. -/
theorem filesToGenerate_eq {ids : List NodeId} (hnodup : ctx.files.Nodup) (hdistinct : ids.Nodup)
    (hids : ∀ id ∈ ids, id ∈ ctx.files)
    (hmarks : ∀ id ∈ ctx.files, ∃ f g, ctx.arena.file? id = some g ∧ f.generate = false ∧
      Marked ids 0 id f g) : ctx.filesToGenerate = ids := by
  let pairs := ids.zipIdx.map fun q => ((q.2 : Int), q.1)
  have hsorted : pairs.Pairwise (·.1 < ·.1) := by
    refine pairwise_iff_getElem.mpr fun i j hi hj hij => ?_
    simpa [pairs] using hij
  have hmem (k : Int) (id : NodeId) :
      (k, id) ∈ ctx.files.filterMap ctx.mark? ↔ (k, id) ∈ pairs := by
    simp only [pairs, mem_filterMap, mark?_eq_some, mem_map, Prod.mk.injEq, Prod.exists,
      mem_zipIdx_iff_getElem?]
    constructor
    · rintro ⟨x, hx, f, hf, hgenerate, rfl, rfl⟩
      obtain ⟨f₀, g, hg, hf₀, hmark⟩ := hmarks id hx
      cases hf.symm.trans hg
      obtain ⟨n, hn, _, hindex⟩ | ⟨_, hnot, _⟩ := hmark
      · exact ⟨id, n, hn, by rw [hindex, Nat.zero_add], rfl⟩
      · cases hgenerate.symm.trans (hnot.trans hf₀)
    · rintro ⟨_, n, hn, rfl, rfl⟩
      have hid := mem_iff_getElem?.mpr ⟨n, hn⟩
      obtain ⟨_, g, hg, _, ⟨n', hn', hgenerate, hindex⟩ | ⟨hnot, _⟩⟩ := hmarks _ (hids _ hid)
      · obtain ⟨hlt, _⟩ := List.getElem?_eq_some_iff.mp hn
        cases (getElem?_inj hlt hdistinct).mp (hn.trans hn'.symm)
        exact ⟨_, hids _ hid, g, hg, hgenerate, by rw [hindex, Nat.zero_add], rfl⟩
      · exact absurd hid hnot
  have hperm : (ctx.files.filterMap ctx.mark?).Perm pairs := by
    refine (perm_ext_iff_of_nodup (hnodup.filterMap fun x y p hx hy => ?_)
      (hsorted.imp fun hlt he => by simp [he] at hlt)).mpr fun p => hmem p.1 p.2
    obtain ⟨_, _, _, rfl⟩ := mark?_eq_some.mp hx
    obtain ⟨_, _, _, heq⟩ := mark?_eq_some.mp hy
    exact congrArg Prod.snd heq
  rw [filesToGenerate_eq_sort, sortByNumber_eq_of_perm hsorted hperm, map_map]
  exact zipIdx_map_fst 0 ids

/-- The files to generate are those with the names that were asked for, in this order. -/
theorem ends_build (r : Request) (options : Options) (hdistinct : r.generate.Nodup) :
    Ends (fun ctx => ctx.filesToGenerate.map ctx.arena.name = r.generate) r.Explains
      (build options r.bare.files r.generate) := by
  have hadd : Ends (fun p => p.1.Nodup ∧ ∀ id ∈ p.1, ∃ f, p.2.file? id = some f ∧
      PublicEnds p.2 p.1 r.Explains f.decl ∧ f.generate = false) r.Explains
      ((addFiles r.bare.files {}).mapError .reported) := by
    cases hadd : addFiles r.bare.files {} with
    | error e => exact .error (r.explains_reported e)
    | ok p =>
      obtain ⟨_, hascend, _, hdecls, hall⟩ := houses_addFiles r.bare.files hadd
      refine .ok ⟨hascend.imp Nat.ne_of_lt, fun id hid => ?_⟩
      obtain ⟨decl, hdecl, f, hf, rfl⟩ := exists_of_forall₂ hdecls hid
      obtain ⟨f', hf', hblank, _⟩ := hall id hid
      cases hf.symm.trans hf'
      obtain ⟨d, hd, hbare⟩ := mem_map.mp hdecl
      have hends : PublicEnds p.2 p.1 r.Explains d.bare := publicEnds_explains hd p.2 p.1
      exact ⟨f, hf, hbare ▸ hends, hblank.2⟩
  refine hadd.bind fun (files, a₀) ⟨hnodup, hfiles⟩ => ?_
  refine (ends_hoists fun id hid => (hfiles id hid).imp fun _ h =>
    ⟨h.1, h.2.1⟩).bind fun a₁ hkeep => ?_
  have hfiles₁ : ∀ id ∈ files, ∃ f, a₁.file? id = some f ∧ f.generate = false := fun id hid => by
    obtain ⟨f, hf, _, hgenerate⟩ := hfiles id hid
    obtain ⟨l, hf'⟩ := hkeep.bare_file? hf
    exact ⟨_, hf', hgenerate⟩
  refine (ends_select r r.generate 0 hdistinct fun id hid => (hfiles₁ id hid).imp fun _ h => h.1).bind
    fun a₂ ⟨ids, hnames, hids, hmarks⟩ => ?_
  have hmarks : ∀ x ∈ files, ∃ f g,
      (namePackages options files (reservedPackages, a₂)).2.file? x = some g ∧
      f.generate = false ∧ Marked ids 0 x f g ∧ g.decl.name = a₁.name x := fun x hx => by
    obtain ⟨f, hf, hgenerate⟩ := hfiles₁ x hx
    obtain ⟨g, hg, hdecl, hmark⟩ := hmarks x f hf
    obtain ⟨name, path, hg⟩ := file?_namePackages options files reservedPackages hg
    exact ⟨f, _, hg, hgenerate, hmark, by rw [name_of_file hf, ← hdecl]⟩
  refine .ok ?_
  rw [filesToGenerate_eq hnodup (.of_map a₁.name (hnames ▸ hdistinct)) hids fun x hx =>
    (hmarks x hx).imp fun _ h => h.imp fun _ h => ⟨h.1, h.2.1, h.2.2.1⟩, ← hnames]
  refine map_congr_left fun x hx => ?_
  obtain ⟨_, g, hg, _, _, hname⟩ := hmarks x (hids x hx)
  rw [name_of_file hg, hname]

end Context

/-! ## Planning -/

namespace Planner

/-- Whether a planner throws nothing but what a request explains. -/
def Explained (r : Request) (x : Planner α) : Prop :=
  ∀ ⦃s e s'⦄, x s = .error e s' → r.Explains e

section

variable (hctx : r.bare.context.1 = .ok ctx) (file : NodeId)

include hctx

theorem explaining : Laws ctx file ctx.HasField r.Explains (fun x => Explained r x) where
  pure _ _ _ _ h := by cases h
  bind {α β x f} hx hf := by
    intro s e s' h
    change EStateM.bind x f s = _ at h
    unfold EStateM.bind at h
    split at h
    · rename_i hok
      exact hf hok h
    · rename_i herror
      cases h
      exact hx herror
  throw he _ _ _ h := by cases h; exact he
  get _ _ _ h := by cases h
  modify _ _ _ _ h := by cases h
  reported := r.explains_reported
  tag {decl proto3 name? values? e} hdecl h := by
    rintro x rfl
    obtain ⟨_, hx⟩ | ⟨hx, hover⟩ := (decl.ends_tag proto3 name? values?).of_error h
    · cases hx
    · cases hx
      exact .single hctx hdecl hover
  defaultExpr {decl module? start e} hdecl h := by
    obtain ⟨rfl, hunreadable⟩ := (decl.ends_defaultExpr module? start).of_error h
    rintro x ⟨⟩
    exact .number hctx hdecl hunreadable
  entry := by
    rintro decl key value ⟨node, entries, m, _, hm, _, hfields⟩
    exact ⟨⟨_, .inl ⟨m, hm, by simp [hfields]⟩⟩, ⟨_, .inl ⟨m, hm, by simp [hfields]⟩⟩⟩
  endless hdecl hnests x hx := by
    cases hx
    exact .map hctx hdecl hnests

theorem explained_planModule (f : FileNode) : Explained r (planModule ctx file f) := by
  have h := explaining hctx file
  have hmessages {node : NodeId} {m : MessageNode} (hm : ctx.arena.message? node = some m) :
      Explained r (planMessage ctx file node m) := by
    refine h.planMessage node (fun decl hdecl => ⟨node, .inl ⟨m, hm, hdecl⟩⟩)
      fun hbind b hb => ?_
    obtain ⟨decl, hdecl, hbound⟩ := exists_of_forall₂ (bindFields_ok hbind).flip hb
    rw [hbound.same]
    refine ⟨⟨node, .inl ⟨m, hm, hdecl⟩⟩, fun hin hindex x hx => ?_⟩
    cases hx
    exact .oneof hctx hm hdecl hin hindex
  have hreset : Explained r (modify fun s => { s with usedFiles := [], constants := [] }) := by
    intro _ _ _ h
    cases h
  unfold planModule
  refine h.next hreset fun _ => h.next (h.mapM h.planForward _) fun _ =>
    h.next (h.mapM (h.planEnum) _) fun _ => h.next (h.planMessages hmessages _) fun _ => ?_
  refine h.next (h.planExtensions _ fun node _ decl hdecl => ⟨node, .inr hdecl⟩) fun _ => ?_
  exact h.next (h.planImports _ _) fun _ => h.pure _

end

theorem ends_check (hctx : r.bare.context.1 = .ok ctx) (hf : ctx.arena.file? id = some f)
    (hname : f.decl.name ∈ r.generate) (hplan : planModule ctx id f s = .ok plan s') :
    Ends (fun _ => True) r.Explains (plan.annotated r.comments).check := by
  unfold ModulePlan.check
  dsimp only
  split
  · rename_i hnull
    refine .error ?_
    rintro x ⟨⟩
    refine .name hname ?_
    rw [← (file_planModule hplan).1]
    exact contains_iff_mem.mp hnull
  · split
    · rename_i hnull
      refine .error ?_
      rintro x ⟨⟩
      exact .source hctx hf hname hplan (contains_iff_mem.mp hnull)
    · split
      · exact .error (r.explains_reported _)
      · exact .ok trivial

theorem explained_planFiles (hctx : r.bare.context.1 = .ok ctx) :
    ∀ {ids : List NodeId}, (∀ id ∈ ids, ∀ f, ctx.arena.file? id = some f → f.generate = true →
      f.decl.name ∈ r.generate) → Explained r (planFiles ctx r.comments ids)
  | [], _ => (explaining hctx 0).pure _
  | id :: ids, hids => by
    obtain ⟨hid, hids⟩ := forall_mem_cons.mp hids
    have h := explaining hctx id
    have hrest := explained_planFiles hctx hids
    unfold planFiles
    split
    · exact hrest
    · rename_i f hf
      refine h.next (h.write _) fun _ => h.bind (explained_planModule hctx id f)
        fun plan s s' hplan => ?_
      have hend := h.next hrest fun plans =>
        h.pure (if f.generate then (f.decl.name, plan.annotated r.comments) :: plans else plans)
      by_cases hgenerate : f.generate = true
      · rw [if_pos hgenerate]
        refine h.next ?_ fun _ => hend
        have hcheck := ends_check hctx hf (hid f hf hgenerate) hplan
        unfold checked
        cases hresult : (plan.annotated r.comments).check with
        | ok _ => exact h.pure _
        | error e => exact h.throw (hcheck.of_error hresult)
      · rw [if_neg hgenerate]
        exact hend

theorem planFiles_names {comments : String → Comments} : ∀ {ids : List NodeId} {s s' : PlanState}
    {plans : Dictionary String ModulePlan}, planFiles ctx comments ids s = .ok plans s' →
      (∀ q ∈ plans, ∃ id f t plan t', planModule ctx id f t = .ok plan t' ∧
        q = (f.decl.name, plan.annotated comments)) ∧
        ∀ id ∈ ids, ∀ f, ctx.arena.file? id = some f → f.generate = true →
          f.decl.name ∈ plans.map (·.1)
  | [], _, _, _, h => by
    cases h
    exact ⟨forall_mem_nil _, forall_mem_nil _⟩
  | id :: ids, s, s', plans, h => by
    cases hf : ctx.arena.file? id with
    | none =>
      simp only [planFiles, hf] at h
      obtain ⟨hnames, hall⟩ := planFiles_names h
      refine ⟨hnames, forall_mem_cons.mpr ⟨fun f hf' => ?_, hall⟩⟩
      cases hf.symm.trans hf'
    | some f =>
      obtain ⟨t, plan, t', rest, _, hplan, hrest, rfl⟩ := planFiles_cons hf h
      obtain ⟨hnames, hall⟩ := planFiles_names hrest
      by_cases hgenerate : f.generate = true
      · rw [if_pos hgenerate]
        refine ⟨forall_mem_cons.mpr ⟨⟨id, f, t, plan, t', hplan, rfl⟩, hnames⟩,
          forall_mem_cons.mpr ⟨fun f' hf' _ => ?_, fun x hx f' hf' hg => ?_⟩⟩
        · cases hf.symm.trans hf'
          exact mem_cons_self
        · exact mem_cons_of_mem _ (hall x hx f' hf' hg)
      · rw [if_neg hgenerate]
        refine ⟨hnames, forall_mem_cons.mpr ⟨fun f' hf' hg => ?_, hall⟩⟩
        cases hf.symm.trans hf'
        exact absurd hg hgenerate

end Planner

namespace Request

theorem ends_context (r : Request) (hdistinct : r.generate.Nodup) :
    Ends (fun ctx => ctx.filesToGenerate.map ctx.arena.name = r.generate) r.Explains
      r.bare.context.1 := by
  have hoptions : Ends (fun _ => True) r.Explains (Options.parse r.parameter).1 := by
    unfold Options.parse
    cases hargs : Options.split .start r.parameter.toList with
    | error e =>
      obtain ⟨rfl, hunclosed⟩ := (Options.ends_split _ .start rfl).of_error hargs
      refine .error ?_
      rintro x ⟨⟩
      exact .quotation hunclosed
    | ok arguments =>
      dsimp only
      cases (Options.addArguments {} arguments).1 with
      | error e => exact .error (r.explains_reported e)
      | ok options => exact .ok trivial
  exact hoptions.bind fun options _ => Context.ends_build r options hdistinct

theorem ends_plans (r : Request) (hdistinct : r.generate.Nodup) :
    Ends (fun modules => modules.map ModulePlan.outputName = r.generate.map Name.outputFile)
      r.Explains r.plans.1 := by
  have hcontext := r.ends_context hdistinct
  unfold plans
  rcases hctx : r.bare.context with ⟨e | ctx, log⟩
  · exact .error (hcontext.of_error (congrArg Prod.fst hctx))
  · have hfiles := hcontext.of_ok (congrArg Prod.fst hctx)
    show Ends _ _ (ctx.plans r.comments).1
    unfold Context.plans
    split
    · rename_i plans s hplans
      obtain ⟨hnames, hall⟩ := Planner.planFiles_names hplans
      have hplan : ∀ id ∈ ctx.filesToGenerate,
          ((ofPairs plans).get? (ctx.arena.name id)).map ModulePlan.outputName =
            some (Name.outputFile (ctx.arena.name id)) := fun id hid => by
        obtain ⟨hid, f, hf, hgenerate⟩ := Context.mem_filesToGenerate.mp hid
        rw [name_of_file hf]
        obtain ⟨plan, hplan⟩ := exists_get?_ofPairs (hall id hid f hf hgenerate)
        obtain ⟨_, _, _, _, _, hfile, heq⟩ := hnames _ (mem_of_get?_ofPairs hplan)
        obtain ⟨hname, rfl⟩ := Prod.mk.inj heq
        rw [hplan, hname, ← (Planner.file_planModule hfile).1]
        rfl
      refine .ok ?_
      rw [map_filterMap, filterMap_congr hplan, filterMap_eq_map', ← hfiles, map_map]
      rfl
    · rename_i e s herror
      refine .error (Planner.explained_planFiles (congrArg Prod.fst hctx)
        (fun id hid f hf hgenerate => ?_) herror)
      rw [← hfiles, ← name_of_file hf]
      exact mem_map_of_mem (Context.mem_filesToGenerate.mpr ⟨hid, f, hf, hgenerate⟩)

/-- For distinct names, a run answers with one module for each of them, in their order, or it reports
an error, or the request has a defect; the command writes the modules of the first case, and nothing
else. -/
theorem complete_or_nothing (r : Request) (hdistinct : r.generate.Nodup) :
    ((∃ modules log, r.process = (.ok (some modules), log) ∧
        modules.map ModulePlan.outputName = r.generate.map Name.outputFile) ∨
      (∃ e log, r.process = (.ok none, log ++ [⟨.error, CompileError.message e⟩])) ∨
      ∃ x log, r.process = (.error x, log) ∧ r.Defect x) ∧
    ∀ data, Request.deserialize data = .ok r →
      (answer data).1 = (r.process.1.toOption.join).map serializeModules := by
  have hplans := r.ends_plans hdistinct
  constructor
  · unfold process
    rcases hresult : r.plans with ⟨(e | x) | modules, log⟩
    · exact .inr (.inl ⟨e, log, rfl⟩)
    · exact .inr (.inr ⟨x, log, rfl, hplans.of_error (congrArg Prod.fst hresult) x rfl⟩)
    · exact .inl ⟨modules, log, rfl, hplans.of_ok (congrArg Prod.fst hresult)⟩
  · intro data hdata
    unfold answer
    simp only [hdata]
    unfold run
    rcases r.process with ⟨_ | (_ | modules), log⟩ <;> rfl

theorem complete_or_nothing_unclosed : let r : Request := { parameter := "\"abc" }
    r.process = (.error .unclosedQuotation, []) ∧ r.Defect .unclosedQuotation := by
  intro r
  have hrun : r.process = (.error .unclosedQuotation, []) := by decide +kernel
  refine ⟨hrun, ?_⟩
  obtain ⟨_, _, hprocess, _⟩ | ⟨_, _, hprocess⟩ | ⟨x, _, hprocess, hdefect⟩ :=
    (complete_or_nothing r (by decide)).1
  · cases hrun.symm.trans hprocess
  · cases hrun.symm.trans hprocess
  · cases hrun.symm.trans hprocess
    exact hdefect

end Request

end Protobind
