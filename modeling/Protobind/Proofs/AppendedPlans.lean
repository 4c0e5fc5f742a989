import Protobind.Proofs.AppendedContexts
import Protobind.Proofs.BoundNames

/-!
# Plans with a further file

Two runs, the second with a further file. A type name leads both to nodes that stand for the same
node and are provided by the same file (`Twin`), so the files that the runs share are planned by the
same steps with the same results (`Planner.Parallel`).
-/

namespace Protobind

open List

variable {α β γ : Type} {ctx ctx' : Context} {file node id i j last : NodeId} {f : FileNode}
  {base : Arena} {e : GenerateError} {m : MessageNode} {modules : List ModulePlan} {r : Request}
  {x y : Planner α} {R : α → β → Prop}

/-! ## Lists side by side -/

theorem forall₂_join {S : α → γ → Prop} {T : β → γ → Prop} : ∀ {xs : List α} {ys : List β}
    {ps : List γ}, Forall₂ S xs ps → Forall₂ T ys ps →
      Forall₂ (fun x y => ∃ p ∈ ps, S x p ∧ T y p) xs ys
  | _, _, _, .nil, .nil => .nil
  | _, _, _, .cons hs hss, .cons ht hts => by
    refine .cons ⟨_, mem_cons_self, hs, ht⟩ ((forall₂_join hss hts).imp fun x y h => ?_)
    exact h.imp fun p hp => ⟨mem_cons_of_mem _ hp.1, hp.2⟩

theorem find?_forall₂ {p : α → Bool} {q : β → Bool} (hpq : ∀ x y, R x y → q y = p x) :
    ∀ {xs : List α} {ys : List β}, Forall₂ R xs ys → Option.Rel R (xs.find? p) (ys.find? q)
  | _, _, .nil => .none
  | _, _, .cons (a := x) hxy hrest => by
    rw [find?_cons, find?_cons, hpq _ _ hxy]
    cases p x with
    | true => exact .some hxy
    | false => exact find?_forall₂ hpq hrest

namespace Context

/-- Whether nodes of two contexts stand for the same node of the shared files, and the same one of
these files provides them. -/
structure Twin (base : Arena) (ctx ctx' : Context) (i j : NodeId) : Prop where
  target : ctx'.arena.target j = ctx.arena.target i
  fileOf : ctx'.arena.fileOf j = ctx.arena.fileOf i
  known : ctx.arena.target i < base.size
  housed : ctx.arena.fileOf i ∈ ctx.files

/-- Whether a file makes the same node visible by nodes of two contexts, through the same file. -/
def Relayed (base : Arena) (ctx ctx' : Context) (file i j : NodeId) : Prop :=
  ∃ target via, target < base.size ∧ via ∈ ctx.files ∧
    (ctx.arena.fileOf i = file ∧ ctx.arena.kind? i = some (.imported target via)) ∧
    (ctx'.arena.fileOf j = file ∧ ctx'.arena.kind? j = some (.imported target via))

theorem mem_of_fileNamed {name : String} (h : ctx.fileNamed name = .ok id) : id ∈ ctx.files :=
  (mem_of_fileIn? (fileIn_eq_ok.mp (mapError_eq_ok.mpr h))).1

/-- The position at which the module of a file is asked for, with the file. -/
def mark? (ctx : Context) (id : NodeId) : Option (Int × NodeId) :=
  match ctx.arena.file? id with
  | some f => if f.generate then some ((f.index : Int), id) else none
  | none => none

theorem mark?_eq_some {p : Int × NodeId} : ctx.mark? id = some p ↔
    ∃ f, ctx.arena.file? id = some f ∧ f.generate = true ∧ p = ((f.index : Int), id) := by
  unfold mark?
  cases hf : ctx.arena.file? id with
  | none => simp
  | some f => cases hgenerate : f.generate <;> simp [hgenerate, eq_comm (a := p)]

theorem filesToGenerate_eq_sort (ctx : Context) :
    ctx.filesToGenerate = (sortByNumber (ctx.files.filterMap ctx.mark?)).map (·.2) := rfl

theorem mem_filesToGenerate : id ∈ ctx.filesToGenerate ↔
    id ∈ ctx.files ∧ ∃ f, ctx.arena.file? id = some f ∧ f.generate = true := by
  simp only [filesToGenerate_eq_sort, mem_map, (perm_sortByNumber _).mem_iff,
    mem_filterMap, mark?_eq_some]
  constructor
  · rintro ⟨_, ⟨x, hx, f, hf, hgenerate, rfl⟩, rfl⟩
    exact ⟨hx, f, hf, hgenerate⟩
  · rintro ⟨hid, f, hf, hgenerate⟩
    exact ⟨_, ⟨id, hid, f, hf, hgenerate, rfl⟩, rfl⟩

theorem Relayed.twin (hfile : file ∈ ctx.files) (hij : Relayed base ctx ctx' file i j) :
    Twin base ctx ctx' i j := by
  obtain ⟨target, via, htarget, _, ⟨hfileOf, hkind⟩, hfileOf', hkind'⟩ := hij
  rw [← Arena.target_of_imported hkind] at htarget
  refine ⟨?_, hfileOf'.trans hfileOf.symm, htarget, hfileOf ▸ hfile⟩
  rw [Arena.target_of_imported hkind, Arena.target_of_imported hkind']

namespace Agree

variable (h : Agree base last ctx ctx')

include h

/-! ## Nodes -/

theorem lt_of_mem (hid : id ∈ ctx.files) : id < base.size := by
  obtain ⟨f, hf, _⟩ := h.houses id hid
  exact Arena.lt_size_of_file? hf

theorem declared_lt {n : NodeId} (hid : id ∈ ctx.files) (hf : ctx.arena.file? id = some f)
    (hn : n ∈ f.messages ++ f.enums ++ f.extensions) :
    n < base.size := by
  obtain ⟨f₀, hf₀, hhouses⟩ := h.houses id hid
  obtain ⟨f', hf', _, hmessages, henums, hextensions⟩ := h.keep.settled_file? hf₀
  cases hf.symm.trans hf'
  rw [hmessages, henums, hextensions] at hn
  exact hhouses.lt_size hn

theorem packageName (hid : id ∈ ctx.files) :
    (ctx'.arena.file? id).map (·.packageName) = (ctx.arena.file? id).map (·.packageName) := by
  obtain ⟨f, l, hf, hf'⟩ := h.alike.files id hid
  rw [hf, hf']
  rfl

theorem twin_declared (hfile : file ∈ ctx.files) (hhouses : base.Houses file f)
    (hnode : node ∈ f.messages ++ f.enums) :
    Twin base ctx ctx' node node := by
  have hmem := mem_append_left f.extensions hnode
  have hlt := hhouses.lt_size hmem
  have htarget := h.target hlt
  refine ⟨(h.symm.target hlt).trans htarget.symm, h.fileOf hlt, ?_, ?_⟩
  · rw [htarget]
    exact hlt
  · rw [h.left.fileOf hlt, hhouses.fileOf hmem]
    exact hfile

theorem relayed (hfile : file ∈ ctx.files) : ∃ f l, ctx.arena.file? file = some f ∧
    ctx'.arena.file? file = some { f with imported := l } ∧
      Forall₂ (Relayed base ctx ctx' file) f.imported l := by
  obtain ⟨f, l, hf, hf'⟩ := h.alike.files file hfile
  obtain ⟨pairs, hpairs, ⟨f₁, hf₁, hall⟩, f₂, hf₂, hall'⟩ := h.imports file hfile
  cases hf.symm.trans hf₁
  cases hf'.symm.trans hf₂
  refine ⟨f, l, hf, hf', (forall₂_join hall hall').imp fun i j hij => ?_⟩
  obtain ⟨p, hp, hi, hj⟩ := hij
  exact ⟨p.1, p.2, (hpairs p hp).1, (hpairs p hp).2, hi, hj⟩

theorem filesToGenerate : ctx'.filesToGenerate = ctx.filesToGenerate := by
  obtain ⟨g, hg, hgenerate⟩ := h.alike.last
  unfold Context.filesToGenerate
  simp only [h.files, filterMap_append, filterMap_cons, filterMap_nil, hg, hgenerate,
    Bool.false_eq_true, if_false, append_nil]
  refine congrArg (fun wanted => (sortByNumber wanted).map (·.2)) (filterMap_congr fun id hid => ?_)
  obtain ⟨f, l, hf, hf'⟩ := h.alike.files id hid
  rw [hf, hf']

/-! ## Resolution -/

theorem visibleIn? : ∀ {names : List String} {i? j? : Option NodeId},
    ctx.visibleIn? node names = .ok i? → ctx'.visibleIn? node names = .ok j? →
      Option.Rel (Twin base ctx ctx') i? j? := by
  intro names
  induction names with
  | nil =>
    intro i? j? hi hj
    cases hi
    cases hj
    exact .none
  | cons name names ih =>
    intro i? j? hi hj
    obtain ⟨file, hfile, hi⟩ := bind_eq_ok.mp hi
    obtain ⟨file', hfile', hj⟩ := bind_eq_ok.mp hj
    cases hfile'.symm.trans (h.fileNamed hfile)
    have hmem := mem_of_fileNamed hfile
    obtain ⟨f, l, hf, hf', hall⟩ := h.relayed hmem
    have hfind := find?_forall₂ (p := fun i => ctx.arena.target i == node)
      (q := fun j => ctx'.arena.target j == node)
      (fun i j hij => by rw [hij.target]) (hall.imp fun i j hij => hij.twin hmem)
    simp only [hf, hf', Option.map_some, Option.getD_some] at hi hj
    generalize f.imported.find? _ = found at hfind hi
    generalize l.find? _ = found' at hfind hj
    cases hfind with
    | none => exact ih hi hj
    | some hij =>
      cases hi
      cases hj
      exact .some hij

theorem resolve {typeName : String} (hfile : file ∈ ctx.files) {p q : NodeId × List LogEntry}
    (hp : ctx.resolve typeName file = .ok p) (hq : ctx'.resolve typeName file = .ok q) :
    Twin base ctx ctx' p.1 q.1 ∧ q.2 = p.2 := by
  obtain ⟨found, hfound, hp⟩ := bind_eq_ok.mp hp
  obtain ⟨found', hfound', hq⟩ := bind_eq_ok.mp hq
  obtain ⟨node, hnode, hfound⟩ := bind_eq_ok.mp hfound
  obtain ⟨hnode', id, hid, f, hhouses, hmem⟩ := h.lookup hnode
  obtain ⟨_, hnode'', hfound'⟩ := bind_eq_ok.mp hfound'
  cases hnode''.symm.trans hnode'
  have htwin := h.twin_declared hid hhouses hmem
  have hlt := hhouses.lt_size (mem_append_left _ hmem)
  have hdirect : ctx'.isDirect node file = ctx.isDirect node file := by
    simp only [isDirect, h.fileDecl (h.lt_of_mem hfile), h.fileDecl hlt]
  rw [hdirect, h.fileDecl (h.lt_of_mem hfile)] at hfound'
  rw [h.fileDecl (h.lt_of_mem hfile), h.options] at hq
  split at hfound
  · rename_i hd
    rw [if_pos hd] at hfound'
    cases hfound
    cases hfound'
    cases hp
    cases hq
    exact ⟨htwin, rfl⟩
  · rename_i hd
    rw [if_neg hd] at hfound'
    obtain ⟨i?, hi, hfound⟩ := bind_eq_ok.mp hfound
    obtain ⟨j?, hj, hfound'⟩ := bind_eq_ok.mp hfound'
    have hrel := h.visibleIn? hi hj
    cases hrel with
    | none =>
      cases hfound
      cases hfound'
      simp only at hp hq
      split at hp
      · cases hp
      · rename_i hstrict
        rw [if_neg hstrict] at hq
        cases hp
        cases hq
        exact ⟨htwin, rfl⟩
    | some hij =>
      cases hfound
      cases hfound'
      cases hp
      cases hq
      exact ⟨hij, rfl⟩

end Agree

end Context

/-! ## Steps side by side -/

namespace Planner

/-- Whether two steps come from the same state to the same result and state, as far as both
succeed. -/
def Parallel (x y : Planner α) : Prop :=
  ∀ ⦃s a s₁ b s₂⦄, x s = .ok a s₁ → y s = .ok b s₂ → b = a ∧ s₂ = s₁

namespace Parallel

theorem refl (x : Planner α) : Parallel x x := by
  intro s a s₁ b s₂ ha hb
  cases ha.symm.trans hb
  exact ⟨rfl, rfl⟩

theorem bind {f g : α → Planner β} (hxy : Parallel x y)
    (hfg : ∀ ⦃a s s'⦄, x s = .ok a s' → Parallel (f a) (g a)) : Parallel (x >>= f) (y >>= g) := by
  intro s c s₁ d s₂ hc hd
  obtain ⟨a, t, ha, hc⟩ := bind_ok.mp hc
  obtain ⟨b, t', hb, hd⟩ := bind_ok.mp hd
  obtain ⟨rfl, rfl⟩ := hxy ha hb
  exact hfg ha hc hd

theorem next {f g : α → Planner β} (hxy : Parallel x y) (hfg : ∀ a, Parallel (f a) (g a)) :
    Parallel (x >>= f) (y >>= g) :=
  hxy.bind fun a _ _ _ => hfg a

theorem step (x : Planner α) {f g : α → Planner β} (hfg : ∀ a, Parallel (f a) (g a)) :
    Parallel (x >>= f) (x >>= g) :=
  (refl x).next hfg

theorem ite {c : Prop} [Decidable c] {x' y' : Planner α} (h : Parallel x y) (h' : Parallel x' y') :
    Parallel (if c then x else x') (if c then y else y') := by
  split
  · exact h
  · exact h'

theorem throw_left : Parallel (throw e) y :=
  fun _ _ _ _ _ ha => by cases ha

theorem throw_right : Parallel x (throw e) :=
  fun _ _ _ _ _ _ hb => by cases hb

theorem mapM {f : α → Planner γ} {g : β → Planner γ} (hfg : ∀ a b, R a b → Parallel (f a) (g b)) :
    ∀ {as : List α} {bs : List β}, Forall₂ R as bs → Parallel (as.mapM f) (bs.mapM g)
  | _, _, .nil => by
    rw [mapM_nil, mapM_nil]
    exact .refl _
  | _, _, .cons hab hrest => by
    rw [mapM_cons, mapM_cons]
    exact (hfg _ _ hab).next fun _ => (mapM hfg hrest).next fun _ => .refl _

end Parallel

section

variable (h : ctx.Agree base last ctx')

include h

/-! ## Fields -/

theorem typeUse_twin (hij : Context.Twin base ctx ctx' i j) :
    typeUse ctx' file j = typeUse ctx file i := by
  have hsettle {a : Arena} {id : NodeId} (hid : a.target (a.target id) = a.target id) :
      a.camelName id = a.camelName (a.target id) := by
    simp only [Arena.camelName, Arena.typeName, hid]
  have hcamel : ctx'.arena.camelName j = ctx.arena.camelName i := by
    rw [hsettle (h.target hij.known), ← h.camelName hij.known, ← hij.target]
    refine hsettle ?_
    rw [hij.target]
    exact h.symm.target hij.known
  have hknown := hij.known
  simp only [typeUse, moduleOf?, enumOf?, mapEntryOf?, hij.target, hij.fileOf, hcamel,
    h.packageName hij.housed, h.fullName hknown, h.constantPrefix hknown, h.message? hknown,
    h.fileDecl hknown, h.enum? hknown, h.registeredName hknown]

theorem parallel_typeReference (hfile : file ∈ ctx.files) (typeName : String) :
    Parallel (typeReference ctx file typeName) (typeReference ctx' file typeName) := by
  intro s t s₁ t' s₂ ht ht'
  obtain ⟨⟨i, entries⟩, _, hi, ht⟩ := bind_ok.mp ht
  obtain ⟨⟨j, entries'⟩, _, hj, ht'⟩ := bind_ok.mp ht'
  obtain ⟨hresolve, rfl⟩ := ofReported_ok.mp hi
  obtain ⟨hresolve', rfl⟩ := ofReported_ok.mp hj
  obtain ⟨htwin, rfl⟩ := h.resolve hfile hresolve hresolve'
  have hname : ctx'.arena.name (typeUse ctx file i).provider =
      ctx.arena.name (typeUse ctx file i).provider := h.name (h.lt_of_mem htwin.housed)
  simp only [typeUse_twin h htwin, hname] at ht'
  exact Parallel.refl _ ht ht'

theorem parallel_bindField (hfile : file ∈ ctx.files) : ∀ (depth depth' : Nat) (proto3 : Bool)
    (decl : FieldDecl) (attr getter : String),
      Parallel (bindField ctx file depth proto3 decl attr getter)
        (bindField ctx' file depth' proto3 decl attr getter) := by
  intro depth
  induction depth with
  | zero => exact fun _ _ _ _ _ => .throw_left
  | succ depth ih =>
    intro depth' proto3 decl attr getter
    cases depth' with
    | zero => exact .throw_right
    | succ depth' =>
      refine .next (.ite ((parallel_typeReference h hfile _).next fun _ => .refl _) (.refl _))
        fun type? => ?_
      split
      · exact (ih depth' _ _ _ _).next fun _ => (ih depth' _ _ _ _).next fun _ => .refl _
      · exact .refl _

theorem parallel_bindFields (hfile : file ∈ ctx.files) (proto3 : Bool) :
    ∀ (decls : List FieldDecl) (a : Name.Allocator),
      Parallel (bindFields ctx file proto3 a decls) (bindFields ctx' file proto3 a decls) := by
  intro decls
  induction decls with
  | nil => exact fun _ => .refl _
  | cons decl decls ih =>
    intro a
    refine .step _ fun member => (parallel_bindField h hfile _ _ _ _ _ _).next fun b => ?_
    exact (ih _).next fun _ => .refl _

/-! ## Messages -/

theorem wellKnown?_twin (hnode : node < base.size) (names : List String) :
    wellKnown? ctx' names node = wellKnown? ctx names node := by
  simp only [wellKnown?, h.name hnode, h.fileDecl hnode]

theorem inside_lt (hnode : node < base.size) (hm : ctx.arena.message? node = some m)
    (hi : i ∈ m.nested ++ m.enums ++ m.extensions) : i < base.size := by
  rw [h.left.message? hnode] at hm
  obtain ⟨n, hn, hkind⟩ := Arena.get?_of_kind? (Arena.message?_eq_some.mp hm)
  refine (h.closed node n hn).inside i ?_
  rw [hkind]
  exact hi

theorem parallel_planMessage (hfile : file ∈ ctx.files) (hnode : node < base.size)
    (hm : ctx.arena.message? node = some m) :
    Parallel (planMessage ctx file node m) (planMessage ctx' file node m) := by
  have htaken : (m.nested ++ m.enums).map ctx'.arena.camelName =
      (m.nested ++ m.enums).map ctx.arena.camelName :=
    map_congr_left fun i hi => h.camelName (inside_lt h hnode hm (mem_append_left _ hi))
  unfold planMessage
  simp only [h.camelName hnode, h.path hnode, h.fileDecl hnode, h.fileOf hnode, h.indexes hnode, htaken,
    wellKnown?_twin h hnode]
  exact (parallel_bindFields h hfile _ _ _).next fun _ => .refl _

theorem parallel_planMessages (hfile : file ∈ ctx.files) :
    ∀ {nodes : List NodeId}, (∀ node ∈ nodes, node < base.size) →
      Parallel (planMessages ctx file nodes) (planMessages ctx' file nodes) := by
  intro nodes
  induction nodes with
  | nil => exact fun _ => .refl _
  | cons node nodes ih =>
    intro hnodes
    obtain ⟨hnode, hrest⟩ := forall_mem_cons.mp hnodes
    unfold planMessages
    rw [h.message? hnode]
    cases hm : ctx.arena.message? node with
    | none => exact ih hrest
    | some m =>
      refine .ite (ih hrest) ((parallel_planMessage h hfile hnode hm).next fun _ => ?_)
      exact (ih hrest).next fun _ => .refl _

/-! ## Modules -/

theorem planEnum_twin (hnode : node < base.size) :
    planEnum ctx' file node = planEnum ctx file node := by
  simp only [planEnum, h.enum? hnode, h.camelName hnode, h.path hnode, h.constantPrefix hnode,
    h.indexes hnode, wellKnown?_twin h hnode]

theorem parallel_planForward (hfile : file ∈ ctx.files) (hij : Context.Relayed base ctx ctx' file i j) :
    Parallel (planForward ctx file i) (planForward ctx' file j) := by
  have htypes : ∀ names : List String, Parallel (useTypes ctx file names) (useTypes ctx' file names) := by
    intro names
    induction names with
    | nil => exact .refl _
    | cons name names ih => exact (parallel_typeReference h hfile name).next fun _ => ih
  have hsymbols (target : NodeId) : ∀ symbols : List Symbol,
      Parallel (forwardSymbols ctx file target symbols) (forwardSymbols ctx' file target symbols) := by
    intro symbols
    induction symbols with
    | nil => exact .refl _
    | cons symbol symbols ih =>
      unfold forwardSymbols
      refine (htypes _).next fun _ => ?_
      cases symbol with
      | const name => exact .step _ fun _ => .step _ fun _ => ih
      | _ => exact .step _ fun _ => ih
  obtain ⟨target, via, htarget, hvia, ⟨_, hkind⟩, _, hkind'⟩ := hij
  simp only [planForward, hkind, hkind', h.name htarget, h.name (h.lt_of_mem hvia), h.packageName hvia]
  refine .step _ fun state => ?_
  split
  · exact .refl _
  · exact .step _ fun _ => (hsymbols _ _).next fun _ => .refl _

theorem extensionVariable_twin (hnode : node < base.size) :
    ctx'.arena.extensionVariable node = ctx.arena.extensionVariable node := by
  rw [Arena.extensionVariable, Arena.extensionVariable, h.typeName hnode]

theorem parallel_planExtension (hfile : file ∈ ctx.files) (hnode : node < base.size) (decl : FieldDecl) :
    Parallel (planExtension ctx file node decl) (planExtension ctx' file node decl) := by
  unfold planExtension
  refine (parallel_typeReference h hfile _).next fun extendee => ?_
  simp only [h.fullName hnode, h.fileDecl (h.lt_of_mem hfile), h.typeName hnode,
    extensionVariable_twin h hnode]
  exact .ite .throw_left (.ite (.refl _) ((parallel_typeReference h hfile _).next fun _ => .refl _))

theorem parallel_planExtensions (hfile : file ∈ ctx.files) : ∀ {nodes : List NodeId},
    (∀ node ∈ nodes, node < base.size) →
      Parallel (planExtensions ctx file nodes) (planExtensions ctx' file nodes) := by
  intro nodes
  induction nodes with
  | nil => exact fun _ => .refl _
  | cons node nodes ih =>
    intro hnodes
    obtain ⟨hnode, hrest⟩ := forall_mem_cons.mp hnodes
    unfold planExtensions
    rw [h.extension? hnode]
    split
    · exact ih hrest
    · refine (parallel_planExtension h hfile hnode _).next fun _ => ?_
      exact (ih hrest).next fun _ => .refl _

theorem parallel_planImports (decl : FileDecl) : ∀ rest : List (Nat × String),
    Parallel (planImports ctx decl rest) (planImports ctx' decl rest) := by
  intro rest
  induction rest with
  | nil => exact .refl _
  | cons first rest ih =>
    obtain ⟨i, name⟩ := first
    have hnamed : Parallel (ofReported (ctx.fileNamed name)) (ofReported (ctx'.fileNamed name)) := by
      intro s d s₁ d' s₂ hd hd'
      obtain ⟨hfound, rfl⟩ := ofReported_ok.mp hd
      obtain ⟨hfound', rfl⟩ := ofReported_ok.mp hd'
      cases hfound'.symm.trans (h.fileNamed hfound)
      exact ⟨rfl, rfl⟩
    refine hnamed.bind fun d _ _ hd => ?_
    obtain ⟨f, l, hf, hf'⟩ := h.alike.files d (Context.mem_of_fileNamed (ofReported_ok.mp hd).1)
    simp only [hf, hf', Option.getD_some]
    refine .ite (.step _ fun _ => ih.next fun _ => .refl _) (.step _ fun _ => ?_)
    exact ih.next fun _ => .refl _

theorem packageDoc?_twin (f : FileNode) (l : List NodeId) :
    packageDoc? ctx' { f with imported := l } = packageDoc? ctx f := by
  have hmem {id : NodeId} (hid : id ∈ ctx.filesToGenerate) : id ∈ ctx.files :=
    (Context.mem_filesToGenerate.mp hid).1
  have hnames := map_congr_left fun id hid => h.name (h.lt_of_mem (hmem hid))
  unfold packageDoc?
  simp only [h.filesToGenerate, hnames]
  refine if_congr Iff.rfl (congrArg some (congrArg (PackageDoc.mk _ _) ?_)) rfl
  refine flatMap_congr fun id hid => ?_
  obtain ⟨g, l, hg, hg'⟩ := h.alike.files id (hmem hid)
  have hlt {i : NodeId} (hi : i ∈ g.messages) : i < base.size :=
    h.declared_lt (hmem hid) hg (mem_append_left _ (mem_append_left _ hi))
  rw [hg, hg']
  have htop : ctx'.arena.topLevelMessages id { g with imported := l } =
      ctx.arena.topLevelMessages id g :=
    filter_congr fun i hi => by rw [h.parent? (hlt hi)]
  simp only [htop]
  exact map_congr_left fun i hi => h.camelName (hlt (mem_filter.mp hi).1)

theorem allExtensions_twin (l : List NodeId) (hlt : ∀ i ∈ f.messages, i < base.size) :
    allExtensions ctx' { f with imported := l } = allExtensions ctx f := by
  refine congrArg (· ++ f.extensions) (flatMap_congr fun i hi => ?_)
  rw [h.message? (hlt i hi)]

theorem parallel_planModule (hfile : file ∈ ctx.files) {l : List NodeId} (hf : ctx.arena.file? file = some f)
    (hall : Forall₂ (Context.Relayed base ctx ctx' file) f.imported l) :
    Parallel (planModule ctx file f) (planModule ctx' file { f with imported := l }) := by
  have hmessages (i : NodeId) (hi : i ∈ f.messages) : i < base.size :=
    h.declared_lt hfile hf (mem_append_left _ (mem_append_left _ hi))
  have henums (i : NodeId) (hi : i ∈ f.enums) : i < base.size :=
    h.declared_lt hfile hf (mem_append_left _ (mem_append_right _ hi))
  have hextensions (i : NodeId) (hi : i ∈ allExtensions ctx f) : i < base.size := by
    rcases mem_append.mp hi with hi | hi
    · obtain ⟨node, hnode, hi⟩ := mem_flatMap.mp hi
      cases hm : ctx.arena.message? node with
      | none =>
        rw [hm] at hi
        cases hi
      | some m =>
        rw [hm] at hi
        exact inside_lt h (hmessages node hnode) hm (mem_append_right _ hi)
    · exact h.declared_lt hfile hf (mem_append_right _ hi)
  have hregistered := map_congr_left fun i hi => congrArg₂ Registration.enum
    (h.registeredName (henums i hi)) (h.camelName (henums i hi))
  have hvariables := map_congr_left fun i hi => congrArg Registration.extension
    (extensionVariable_twin h (hextensions i hi))
  unfold planModule
  simp only [allExtensions_twin h l hmessages, hregistered, hvariables, packageDoc?_twin h, h.options]
  refine .step _ fun _ => (Parallel.mapM (fun i j hij => parallel_planForward h hfile hij) hall).next
    fun forwards => ?_
  have hplans : Parallel (f.enums.mapM (planEnum ctx file)) (f.enums.mapM (planEnum ctx' file)) := by
    refine Parallel.mapM (R := fun i j => j = i ∧ i ∈ f.enums) (fun i j hij => ?_)
      (forall₂_same.mpr fun i hi => ⟨rfl, hi⟩)
    obtain ⟨rfl, hi⟩ := hij
    rw [planEnum_twin h (henums j hi)]
    exact .refl _
  refine hplans.next fun enums => ?_
  refine (parallel_planMessages h hfile hmessages).bind fun ms _ _ hms => ?_
  have hnames := map_congr_left fun p hp => congrArg (Registration.message p.2.name)
    (h.registeredName (hmessages p.1 ((planMessages_named hms).2 p hp).1))
  refine (parallel_planExtensions h hfile hextensions).next fun extensions => ?_
  simp only [hnames]
  exact (parallel_planImports h _ _).next fun _ => .refl _

/-- The plans of the shared files are the same; the further file is planned after them, and its plan
is not among the answers. -/
theorem planFiles_append {comments comments' : String → Comments}
    (hcomments : ∀ id ∈ ctx.files, comments' (ctx.arena.name id) = comments (ctx.arena.name id)) :
    ∀ {ids : List NodeId}, (∀ id ∈ ids, id ∈ ctx.files) →
    ∀ {s s₁ s₂ : PlanState} {plans plans' : Dictionary String ModulePlan},
      planFiles ctx comments ids s = .ok plans s₁ →
      planFiles ctx' comments' (ids ++ [last]) s = .ok plans' s₂ → plans' = plans := by
  intro ids
  induction ids with
  | nil =>
    intro _ s s₁ s₂ plans plans' hplans hplans'
    obtain ⟨g, hg, hgenerate⟩ := h.alike.last
    cases hplans
    obtain ⟨_, _, _, _, _, _, hrest, rfl⟩ := planFiles_cons hg hplans'
    cases hrest
    rw [hgenerate]
    rfl
  | cons id ids ih =>
    intro hids s s₁ s₂ plans plans' hplans hplans'
    obtain ⟨hid, hrest⟩ := forall_mem_cons.mp hids
    obtain ⟨f, l, hf, hf', hall⟩ := h.relayed hid
    obtain ⟨t, plan, u, more, ht, hu, hmore, rfl⟩ := planFiles_cons hf hplans
    obtain ⟨t', plan', u', more', ht', hu', hmore', rfl⟩ := planFiles_cons hf' hplans'
    cases ht.symm.trans ht'
    obtain ⟨rfl, rfl⟩ := parallel_planModule h hid hf hall hu hu'
    have hnamed : comments' plan'.file = comments plan'.file := by
      rw [(file_planModule hu).1, ← Arena.name_of_file hf]
      exact hcomments id hid
    rw [ih hrest hmore hmore', ModulePlan.annotated, ModulePlan.annotated, hnamed]

end

end Planner

theorem Context.Agree.plans (h : Agree base last ctx ctx') {comments comments' : String → Comments}
    (hcomments : ∀ id ∈ ctx.files, comments' (ctx.arena.name id) = comments (ctx.arena.name id))
    {modules' : List ModulePlan} (hm : (ctx.plans comments).1 = .ok modules)
    (hm' : (ctx'.plans comments').1 = .ok modules') : modules' = modules := by
  unfold Context.plans at hm hm'
  split at hm
  · rename_i plans s hplans
    split at hm'
    · rename_i plans' s' hplans'
      rw [h.files] at hplans'
      cases Planner.planFiles_append h hcomments (fun _ hid => hid) hplans hplans'
      simp only [h.filesToGenerate, Except.ok.injEq] at hm hm'
      rw [← hm, ← hm']
      refine filterMap_congr fun id hid => ?_
      rw [h.name (h.lt_of_mem (mem_filesToGenerate.mp hid).1)]
    · cases hm'
  · cases hm

namespace Request

theorem plans_of_run (hctx : r.bare.context.1 = .ok ctx) (h : r.run.1 = .ok (some modules)) :
    (ctx.plans r.comments).1 = .ok modules := by
  unfold run process plans at h
  rcases hcontext : r.bare.context with ⟨result, log⟩
  rw [hcontext] at hctx h
  cases hctx
  rcases hplans : ctx.plans r.comments with ⟨result, log'⟩
  simp only [hplans] at h ⊢
  cases result with
  | ok plans =>
    cases h
    rfl
  | error e => cases e <;> cases h

/-- A further file behind the files of a request, under a name and with type names of its own, does
not disturb the modules that were asked for. -/
theorem appended_file_keeps_modules {r : Request} {g : FileDecl} {ctx ctx' : Context}
    (hctx : r.bare.context.1 = .ok ctx)
    (hctx' : { r with files := r.files ++ [g] : Request }.bare.context.1 = .ok ctx')
    (hname : g.name ∉ r.files.map (·.name))
    (htypes : ∀ node ∈ ctx'.typeNodes, (ctx'.arena.fileDecl node).name = g.name →
      ctx'.arena.fullName node ∉ ctx.typeNames) {modules modules' : List ModulePlan}
    (h : r.run.1 = .ok (some modules))
    (h' : { r with files := r.files ++ [g] : Request }.run.1 = .ok (some modules')) :
    modules' = modules := by
  obtain ⟨options, hoptions, hbuild⟩ := bind_eq_ok.mp hctx
  obtain ⟨options', hoptions', hbuild'⟩ := bind_eq_ok.mp hctx'
  cases hoptions.symm.trans hoptions'
  simp only [bare, map_append] at hbuild hbuild'
  obtain ⟨⟨base, last, hagree⟩, hnames⟩ :=
    Context.agree_build hbuild hbuild' (by rwa [map_map]) htypes
  refine hagree.plans (fun id hid => ?_) (plans_of_run hctx h) (plans_of_run hctx' h')
  have hother : (g.name == ctx.arena.name id) = false :=
    beq_eq_false_iff_ne.mpr (hnames id hid).symm
  unfold comments
  rw [reverse_append, reverse_singleton, singleton_append, find?_cons, hother]

/-- A file with an enum, and one that imports it publicly, whose module is asked for. -/
def relayedKind : Request where
  files :=
    [{ name? := some "a.proto",
       enums := [{ name? := some "K", values := [{ name? := some "ON", number? := some 0 }] }] },
     { name? := some "b.proto", dependencies := ["a.proto"], publicDependencies := [0] }]
  generate := ["b.proto"]

/-- A message with the enum of `relayedKind`, which reaches it through the second file. -/
def kindHolder : FileDecl where
  name? := some "c.proto"
  dependencies := ["b.proto"]
  messages :=
    [{ name? := some "M",
       fields := [{ name? := some "kind", number? := some 1, kind? := some .enum,
                    typeName? := some ".K" }] }]

theorem appended_file_keeps_modules_relayed : ∃ ctx ctx' modules modules',
    relayedKind.bare.context.1 = .ok ctx ∧
      { relayedKind with files := relayedKind.files ++ [kindHolder] : Request }.bare.context.1 = .ok ctx' ∧
      kindHolder.name ∉ relayedKind.files.map (·.name) ∧
      (∀ node ∈ ctx'.typeNodes, (ctx'.arena.fileDecl node).name = kindHolder.name →
        ctx'.arena.fullName node ∉ ctx.typeNames) ∧
      relayedKind.run.1 = .ok (some modules) ∧
      { relayedKind with files := relayedKind.files ++ [kindHolder] : Request }.run.1 =
        .ok (some modules') ∧
      modules.map (·.file) = ["b.proto"] ∧ modules' = modules := by
  have hcontexts : ∃ ctx, relayedKind.bare.context.1 = .ok ctx ∧ ∃ ctx',
      { relayedKind with files := relayedKind.files ++ [kindHolder] : Request }.bare.context.1 = .ok ctx' ∧
      ∀ node ∈ ctx'.typeNodes, (ctx'.arena.fileDecl node).name = kindHolder.name →
        ctx'.arena.fullName node ∉ ctx.typeNames := by decide +kernel
  have hruns : ∃ modules?, relayedKind.run.1 = .ok modules? ∧ ∃ modules'?,
      { relayedKind with files := relayedKind.files ++ [kindHolder] : Request }.run.1 = .ok modules'? ∧
      modules'?.isSome = true ∧ ∃ modules ∈ modules?, modules.map (·.file) = ["b.proto"] := by
    decide +kernel
  obtain ⟨ctx, hctx, ctx', hctx', htypes⟩ := hcontexts
  obtain ⟨_, hrun, _, hrun', hsome, modules, ⟨⟩, hfiles⟩ := hruns
  obtain ⟨modules', rfl⟩ := Option.isSome_iff_exists.mp hsome
  have hname : kindHolder.name ∉ relayedKind.files.map (·.name) := by decide
  exact ⟨ctx, ctx', modules, modules', hctx, hctx', hname, htypes, hrun, hrun', hfiles,
    appended_file_keeps_modules hctx hctx' hname htypes hrun hrun'⟩

end Request

end Protobind
