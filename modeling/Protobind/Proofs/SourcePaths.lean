import Protobind.Proofs.BuiltContext

/-!
# Source paths

The way up from a node to its file takes the positions and names of its place. So the positions of a
message or an enum lead to its own declaration, and its path in the source is the path of nothing
else.
-/

namespace Protobind.Arena

open List

variable {decl : FileDecl} {a b : Arena} {id : NodeId} {s : Site} {p : Entry → Bool}

/-! ## Paths -/

/-- The numbers that lead to a message in the source, by the positions of the message and those
around it. -/
def messageSteps : List Nat → List Nat
  | [] => []
  | i :: path => messagePath :: i :: path.flatMap fun j => [nestedMessagePath, j]

def enumSteps (i : Nat) : List Nat → List Nat
  | [] => [enumPath, i]
  | outer => messageSteps outer ++ [nestedEnumPath, i]

def stepsText (steps : List Nat) : String := String.intercalate "," (steps.map toString)

theorem stepsText_append {steps : List Nat} (h : steps ≠ []) (i j : Nat) :
    stepsText (steps ++ [i, j]) = s!"{stepsText steps},{i},{j}" := by
  rw [stepsText, map_append, String.intercalate_append_of_ne_nil (by simpa using h) (by simp), map_cons,
    map_cons, map_nil, String.intercalate_cons_cons, String.intercalate_singleton]
  simp only [stepsText, String.append_assoc]
  rfl

theorem foldl_steps (path : List Nat) : ∀ {steps : List Nat}, steps ≠ [] →
    path.foldl (fun text i => s!"{text},{nestedMessagePath},{i}") (stepsText steps) =
      stepsText (steps ++ path.flatMap fun j => [nestedMessagePath, j]) := by
  induction path with
  | nil =>
    intro steps _
    rw [flatMap_nil, append_nil]
    rfl
  | cons i path ih =>
    intro steps h
    rw [foldl_cons, ← stepsText_append h, ih (by simp), flatMap_cons, append_assoc]

theorem pathOfIndexes_eq (path : List Nat) : pathOfIndexes path = stepsText (messageSteps path) := by
  cases path with
  | nil => rfl
  | cons i path => exact foldl_steps path (cons_ne_nil messagePath [i])

theorem stepsText_injective : Function.Injective stepsText := by
  have hcomma (steps : List Nat) : ∀ text ∈ steps.map toString, ',' ∉ text.toList := fun text htext hmem => by
    obtain ⟨n, _, rfl⟩ := mem_map.mp htext
    rw [show toString n = n.repr from rfl, Nat.repr_eq_ofList_toDigits, String.toList_ofList] at hmem
    exact absurd (Nat.isDigit_of_mem_toDigits (by decide) (by decide) hmem) (by decide)
  have hsplit (steps : List Nat) := String.toList_split_intercalate (hcomma steps)
  intro steps steps' h
  have hparts := congrArg (fun text : String => (text.split ',').toList.map (·.copy)) h
  have hsame := (hsplit steps).symm.trans (hparts.trans (hsplit steps'))
  rcases steps with - | ⟨n, steps⟩ <;> rcases steps' with - | ⟨n', steps'⟩
  · rfl
  · exact absurd (cons.inj hsame).1.symm Nat.repr_ne_empty
  · exact absurd (cons.inj hsame).1 Nat.repr_ne_empty
  · exact map_injective_iff.mpr Name.repr_injective hsame

theorem flatMap_pair_injective (tag : Nat) : ∀ {path path' : List Nat},
    (path.flatMap fun j => [tag, j]) = (path'.flatMap fun j => [tag, j]) → path = path'
  | [], [], _ => rfl
  | i :: path, j :: path', h => by
    simp only [flatMap_cons, cons_append, nil_append, cons.injEq, true_and] at h
    rw [h.1, flatMap_pair_injective tag h.2]

theorem messageSteps_injective : ∀ {path path' : List Nat},
    messageSteps path = messageSteps path' → path = path'
  | [], [], _ => rfl
  | i :: path, j :: path', h => by
    simp only [messageSteps, cons.injEq, true_and] at h
    rw [h.1, flatMap_pair_injective _ h.2]

theorem enumSteps_injective {i j : Nat} : ∀ {outer outer' : List Nat},
    enumSteps i outer = enumSteps j outer' → outer ++ [i] = outer' ++ [j]
  | [], [], h => by
    simpa [enumSteps] using h
  | k :: outer, [], h => by
    simp [enumSteps, messageSteps, messagePath, enumPath] at h
  | [], k :: outer', h => by
    simp [enumSteps, messageSteps, messagePath, enumPath] at h
  | k :: outer, k' :: outer', h => by
    obtain ⟨hsteps, hlast⟩ := append_inj' (h : messageSteps _ ++ _ = messageSteps _ ++ _) rfl
    rw [messageSteps_injective hsteps, (cons.inj (cons.inj hlast).2).1]

/-- The last step to a nested message is not that to an enum inside a message. -/
theorem messageSteps_ne_enumSteps {i : Nat} : ∀ (path outer : List Nat),
    messageSteps path ≠ enumSteps i outer
  | [], [], h => by cases h
  | [], k :: outer, h => by cases h
  | k :: path, [], h => by
    simp [enumSteps, messageSteps, messagePath, enumPath] at h
  | k :: path, k' :: outer, h => by
    rcases eq_nil_or_concat path with rfl | ⟨path, j, rfl⟩
    · simpa [enumSteps, messageSteps] using congrArg length h
    · rw [messageSteps, concat_eq_append, flatMap_append, ← cons_append, ← cons_append] at h
      cases (append_inj' (h : _ = messageSteps _ ++ _) rfl).2

/-! ## The way up -/

theorem name_of_message {m : MessageNode} (h : a.message? id = some m) : a.name id = m.decl.name := by
  unfold Arena.name
  rw [target_of_message h, message?_eq_some.mp h]

/-- The way up from a message takes its positions and names, where it is no longer than the number of
the message allows. -/
def Climbs (b : Arena) (s : Site) : Prop := ∀ depth, s.id < depth →
  b.messageIndexes depth s.id = s.path ∧ b.namesAbove depth s.id = s.names

section

variable (h : Mirrors decl a b)

include h

theorem message?_file : b.message? a.size = none := by
  unfold message?
  rw [file?_eq_some.mp h.file?]

theorem message?_site (hs : s ∈ decl.sites a.size) : ∃ m, b.message? s.id = some m ∧
    (m.decl = s.decl ∧ m.index = s.path.getLastD 0 ∧
      m.settledPath? = if s.decl.nested.isEmpty then none else some s.names) ∧
    m.nested = decl.numbers a.size (·.isIn s.id .message) ∧
    m.enums = decl.numbers a.size (·.isIn s.id .enum) ∧
    m.extensions = decl.numbers a.size (·.isIn s.id .extension) :=
  ⟨_, message?_eq_some.mpr (kind?_of_get? (h.nodes _ _ (FileDecl.site_mem_places hs))), ⟨rfl, rfl, rfl⟩,
    rfl, rfl, rfl⟩

theorem climbs_root : Climbs b (decl.root a.size)
  | depth + 1, _ => by
    show b.messageIndexes (depth + 1) a.size = [] ∧ b.namesAbove (depth + 1) a.size = []
    simp only [messageIndexes, namesAbove, message?_file h, h.file?, Option.isSome_some, if_true, and_self]

theorem climbs_site : ∀ s ∈ decl.root a.size :: decl.sites a.size, Climbs b s := by
  refine forall_mem_cons.mpr ⟨climbs_root h, Site.induction_below (Nat.lt_succ_self _) (climbs_root h) ?_⟩
  intro p s i hs hlt heq _ hp depth hdepth
  cases depth with
  | zero => exact absurd hdepth (Nat.not_lt_zero _)
  | succ depth =>
    obtain ⟨m, hm, ⟨hdecl, hindex, _⟩, _⟩ := message?_site h hs
    obtain ⟨hindexes, hnames⟩ := hp depth (Nat.lt_of_lt_of_le hlt (Nat.le_of_lt_succ hdepth))
    have hparent : b.parent? s.id = some p.id := by
      rw [parent?, h.nodes _ _ (FileDecl.site_mem_places hs), heq]
      rfl
    have hnofile : b.file? s.id = none := by
      unfold file?
      rw [message?_eq_some.mp hm]
    have hpath : s.path = p.path ++ [i] := by rw [heq]; rfl
    have hnames' : s.names = p.names ++ [s.decl.name] := by rw [heq]; rfl
    have hindex : m.index = i := by rw [hindex, hpath]; simp
    rw [messageIndexes, namesAbove, hm, hparent, hnofile, name_of_message hm, hdecl, hpath, hnames',
      ← hindexes, ← hnames, ← hindex]
    exact ⟨rfl, rfl⟩

theorem message_position (hs : s ∈ decl.sites a.size) :
    b.indexes s.id = s.path ∧ b.typeName s.id = s.names ∧ b.path s.id = stepsText (messageSteps s.path) := by
  obtain ⟨m, hm, ⟨_, _, hsettled⟩, _⟩ := message?_site h hs
  have hlt := lt_size_of_get? (h.nodes _ _ (FileDecl.site_mem_places hs))
  obtain ⟨hindexes, hnames⟩ := climbs_site h s (mem_cons_of_mem _ hs) (b.size + 1) (Nat.lt_succ_of_lt hlt)
  have hown : b.indexes s.id = s.path := by
    unfold indexes
    rw [message?_eq_some.mp hm]
    exact hindexes
  refine ⟨hown, ?_, ?_⟩
  · unfold typeName
    simp only [target_of_message hm, hm, hsettled, Option.bind_some]
    by_cases hempty : s.decl.nested.isEmpty = true
    · rw [if_pos hempty]
      exact hnames
    · rw [if_neg hempty]
  · unfold Arena.path
    rw [message?_eq_some.mp hm, hown, pathOfIndexes_eq]

theorem enum_position (hs : s ∈ decl.root a.size :: decl.sites a.size) {d : EnumDecl} {i : Nat}
    (hid : b.get? id = some { id, file := a.size, parent? := some s.id, kind := .enum d i }) :
    b.indexes id = s.path ++ [i] ∧ b.typeName id = s.names ++ [d.name] ∧
      b.path id = stepsText (enumSteps i s.path) := by
  have hkind := kind?_of_get? hid
  have hparent : b.parent? id = some s.id := by rw [parent?, hid]; rfl
  have henum : b.enum? id = some d := enum?_eq_some.mpr ⟨i, hkind⟩
  have hclimbs := climbs_site h s hs
  have hlt : s.id < b.size := by
    rw [h.size]
    exact Nat.lt_of_lt_of_le (FileDecl.sites_lt hs) (Nat.add_le_add_left (by simp [FileDecl.entries]) _)
  refine ⟨?_, ?_, ?_⟩
  · unfold indexes
    rw [hkind, hparent, ← (hclimbs (b.size + 1) (Nat.lt_succ_of_lt hlt)).1]
    rfl
  · have hname : b.name id = d.name := by
      unfold Arena.name
      rw [target_of_enum henum, hkind]
    unfold typeName
    simp only [target_of_enum henum, message?, file?, namesAbove, hkind, hparent, hname, Option.bind_none,
      Option.isSome_none, Bool.false_eq_true, if_false, (hclimbs b.size hlt).2]
  · unfold Arena.path
    rw [hkind, hparent]
    rcases mem_cons.mp hs with rfl | hs
    · have hnone : b.message? (decl.root a.size).id = none := message?_file h
      simp only [Option.bind_some, hnone]
      rfl
    · obtain ⟨m, hm, _⟩ := message?_site h hs
      obtain ⟨k, path, hpath⟩ : ∃ k path, s.path = k :: path := by
        obtain ⟨i, path, _, hpath⟩ := (Site.nodup_paths_below (decl.root a.size) 0 (a.size + 1) _).1 s hs
        exact ⟨i, path, hpath⟩
      simp only [Option.bind_some, hm, Option.map_some, (hclimbs (b.size + 1) (Nat.lt_succ_of_lt hlt)).1,
        pathOfIndexes_eq, hpath]
      exact (stepsText_append (cons_ne_nil _ _) ..).symm

end

/-! ## Everything that is declared -/

/-- The enums of messages, with their positions. -/
def enumPlaces (sites : List Site) : List (Site × EnumDecl × Nat) :=
  sites.flatMap fun s => s.decl.enums.zipIdx.map fun d => (s, d)

theorem flatMap_enums (sites : List Site) : sites.flatMap Site.enums =
    (enumPlaces sites).map fun place => ⟨some place.1.id, .enum place.2.1 place.2.2⟩ := by
  simp only [enumPlaces, map_flatMap, map_map]
  rfl

theorem nodup_enumPlaces {sites : List Site} (h : (sites.map (·.path)).Nodup) :
    ((enumPlaces sites).map fun place => enumSteps place.2.2 place.1.path).Nodup := by
  rw [enumPlaces, map_flatMap, nodup_flatMap]
  refine ⟨fun s _ => ?_, (pairwise_map.mp h).imp fun hne steps hsteps hsteps' => hne ?_⟩
  · have hpositions : (s.decl.enums.zipIdx.map fun d => (s, d)).map
        (fun place => enumSteps place.2.2 place.1.path) =
          (s.decl.enums.zipIdx.map (·.2)).map fun i => enumSteps i s.path := by
      rw [map_map, map_map]
      rfl
    rw [hpositions, zipIdx_map_snd]
    refine Nodup.map (fun i j hsame => ?_) nodup_range'
    exact (cons.inj (append_inj' (enumSteps_injective hsame) rfl).2).1
  · simp only [map_map] at hsteps hsteps'
    obtain ⟨d, _, rfl⟩ := mem_map.mp hsteps
    obtain ⟨d', _, hsame⟩ := mem_map.mp hsteps'
    exact (append_inj' (enumSteps_injective hsame) rfl).1.symm

section

variable (h : Mirrors decl a b)

include h

/-- The nodes with a property, when it is known for what they stand. -/
theorem forall₂_nodes {α : Type} {ds : List α} {toEntry : α → Entry}
    (hds : (decl.entries a.size).filter p = ds.map toEntry) :
    Forall₂ (fun id d => b.get? id = some
      { id, file := a.size, parent? := (toEntry d).parent?,
        kind := (toEntry d).kind.linked decl a.size id }) (decl.numbers a.size p) ds := by
  have hall := FileDecl.forall₂_numbers (p := p) fun e id he => h.nodes e id he
  rw [hds] at hall
  exact forall₂_map_right_iff.mp hall

theorem map_nodes {α β : Type} {ds : List α} {toEntry : α → Entry}
    (hds : (decl.entries a.size).filter p = ds.map toEntry) {g : NodeId → β} {k : α → β}
    (hg : ∀ id d, b.kind? id = some ((toEntry d).kind.linked decl a.size id) → g id = k d) :
    (decl.numbers a.size p).map g = ds.map k := by
  rw [← forall₂_eq_eq_eq, forall₂_map_left_iff, forall₂_map_right_iff]
  exact (forall₂_nodes h hds).imp fun id d hid => hg id d (kind?_of_get? hid)

theorem forall₂_enums : Forall₂ (fun id place =>
    (place.1 ∈ decl.root a.size :: decl.sites a.size ∧ place.1.decl.enums[place.2.2]? = some place.2.1) ∧
      b.get? id = some { id, file := a.size, parent? := some place.1.id, kind := .enum place.2.1 place.2.2 })
    (decl.fileNode a.size).enums (enumPlaces (decl.root a.size :: decl.sites a.size)) := by
  have hall := forall₂_nodes h ((decl.filter_sort_enum a.size).trans (flatMap_enums _))
  refine Forall₂.flip ((forall₂_and_left _ _).mpr ⟨fun place hplace => ?_, hall.flip⟩)
  obtain ⟨s, hs, hplace⟩ := mem_flatMap.mp hplace
  obtain ⟨d, hd, rfl⟩ := mem_map.mp hplace
  exact ⟨hs, mk_mem_zipIdx_iff_getElem?.mp hd⟩

/-- No two messages and enums of a file have one path. -/
theorem path_injective : ∀ x ∈ (decl.fileNode a.size).messages ++ (decl.fileNode a.size).enums,
    ∀ y ∈ (decl.fileNode a.size).messages ++ (decl.fileNode a.size).enums, b.path x = b.path y → x = y := by
  have hmessages : (decl.fileNode a.size).messages.map b.path =
      (((decl.sites a.size).map (·.path)).map messageSteps).map stepsText := by
    rw [FileDecl.fileNode, FileDecl.numbers_messages, map_map, map_map, map_map]
    exact map_congr_left fun s hs => (message_position h hs).2.2
  have henums : (decl.fileNode a.size).enums.map b.path =
      ((enumPlaces (decl.root a.size :: decl.sites a.size)).map fun place =>
        enumSteps place.2.2 place.1.path).map stepsText := by
    rw [map_map, ← forall₂_eq_eq_eq, forall₂_map_left_iff, forall₂_map_right_iff]
    exact (forall₂_enums h).imp fun id place hid => (enum_position h hid.1.1 hid.2).2.2
  obtain ⟨hpaths, honce⟩ := Site.nodup_paths_below (decl.root a.size) 0 (a.size + 1) decl.messages
  refine inj_on_of_nodup_map ?_
  rw [map_append, hmessages, henums, ← map_append]
  refine Nodup.map stepsText_injective (Nodup.append ?_ (nodup_enumPlaces ?_) ?_)
  · exact Nodup.map (fun _ _ => messageSteps_injective) honce
  · refine nodup_cons.mpr ⟨fun hmem => ?_, honce⟩
    obtain ⟨s, hs, heq⟩ := mem_map.mp hmem
    obtain ⟨i, path, _, hpath⟩ := hpaths s hs
    cases hpath.symm.trans heq
  · intro steps hsteps hsteps'
    obtain ⟨path, _, rfl⟩ := mem_map.mp hsteps
    obtain ⟨place, _, hsame⟩ := mem_map.mp hsteps'
    exact messageSteps_ne_enumSteps _ _ hsame.symm

end

def messageDecl? (a : Arena) (id : NodeId) : Option MessageDecl := (a.message? id).map (·.decl)

def extensionsOf (a : Arena) (id : NodeId) : List NodeId :=
  ((a.message? id).map (·.extensions)).getD []

/-- Whether a message knows the nodes of everything that it declares, in order. -/
structure Knows (a : Arena) (m : MessageNode) : Prop where
  nested : m.nested.map a.messageDecl? = m.decl.nested.map some
  enums : m.enums.map a.enum? = m.decl.enums.map some
  extensions : m.extensions.map a.extension? = m.decl.extensions.map some

section

variable (h : Mirrors decl a b)

include h

theorem map_messageDecl? {sites : List Site} (hsites : (decl.entries a.size).filter p = sites.map (·.entry decl.package)) :
    (decl.numbers a.size p).map b.messageDecl? = (sites.map (·.decl)).map some := by
  rw [map_map]
  refine map_nodes h hsites fun id s hid => ?_
  simp only [messageDecl?, message?, hid]
  rfl

theorem map_enum? {sites : List Site} (hsites : (decl.entries a.size).filter p = sites.flatMap Site.enums) :
    (decl.numbers a.size p).map b.enum? = (sites.flatMap (·.decl.enums)).map some := by
  have hdecls : sites.flatMap (·.decl.enums) = (enumPlaces sites).map (·.2.1) := by
    simp only [enumPlaces, map_flatMap, map_map]
    exact flatMap_congr fun s _ => (zipIdx_map_fst ..).symm
  rw [hdecls, map_map]
  exact map_nodes h (hsites.trans (flatMap_enums sites)) fun id place hid => enum?_eq_some.mpr ⟨_, hid⟩

theorem map_extension? (hs : s ∈ decl.root a.size :: decl.sites a.size) :
    (decl.numbers a.size (·.isIn s.id .extension)).map b.extension? = s.decl.extensions.map some :=
  map_nodes h (FileDecl.extensions_in hs) fun id d hid => by
    unfold extension?
    rw [hid]
    rfl

theorem knows (hs : s ∈ decl.sites a.size) : ∃ m, b.message? s.id = some m ∧ m.decl = s.decl ∧ b.Knows m := by
  obtain ⟨m, hm, ⟨hdecl, _⟩, hnested, henums, hextensions⟩ := message?_site h hs
  have hs := mem_cons_of_mem (decl.root a.size) hs
  refine ⟨m, hm, hdecl, ?_, ?_, ?_⟩
  · rw [hnested, hdecl, map_messageDecl? h (FileDecl.messages_in hs), FileDecl.nested_in hs]
  · have hown := FileDecl.enums_in hs
    rw [← flatMap_singleton Site.enums s] at hown
    rw [henums, hdecl, map_enum? h hown, flatMap_singleton]
  · rw [hextensions, hdecl, map_extension? h hs]

end

/-- Follows positions to an enum, the last of them among the enums of a message. -/
def enumAt? (decl : MessageDecl) (outer : List Nat) (i : Nat) : Option (List String × EnumDecl) :=
  (decl.descend? outer).bind fun r => r.2.enums[i]?.map fun d => (r.1 ++ [d.name], d)

/-- A file can always be added, and its tree mirrors the declaration. Everything gets one node, and
the new numbers follow the old ones. Files and messages know the nodes of what they declare, in
order, and files list all messages with the outer ones first. The positions of a message or an enum
lead from the file to its own declaration, through the names of its type, and make up its path in
the source, which no other one has. -/
theorem addFile_mirrors (decl : FileDecl) (a : Arena) :
    ∃ b f, addFile decl a = .ok (a.size, b) ∧ b.file? a.size = some f ∧ f.decl = decl ∧
      (∀ id < a.size, b.get? id = a.get? id) ∧
      a.size :: (f.messages ++ f.enums ++ (f.extensions ++ f.messages.flatMap b.extensionsOf)) ~
        range' a.size (b.size - a.size) ∧
      f.messages.map b.messageDecl? = (MessageDecl.preorder decl.messages).map some ∧
      (b.topLevelMessages a.size f).map b.messageDecl? = decl.messages.map some ∧
      f.enums.map b.enum? =
        (decl.enums ++ (MessageDecl.preorder decl.messages).flatMap (·.enums)).map some ∧
      f.extensions.map b.extension? = decl.extensions.map some ∧
      (∀ id ∈ f.messages, ∃ m, b.message? id = some m ∧ b.Knows m ∧
        (decl.root a.size).decl.descend? (b.indexes id) = some (b.typeName id, m.decl) ∧
        b.path id = stepsText (messageSteps (b.indexes id))) ∧
      (∀ id ∈ f.enums, ∃ outer i d, b.enum? id = some d ∧ b.indexes id = outer ++ [i] ∧
        enumAt? (decl.root a.size).decl outer i = some (b.typeName id, d) ∧
        b.path id = stepsText (enumSteps i outer)) ∧
      ∀ x ∈ f.messages ++ f.enums, ∀ y ∈ f.messages ++ f.enums, b.path x = b.path y → x = y := by
  obtain ⟨b, hadd, h⟩ := mirrors_addFile decl a
  have hdescend : ∀ s ∈ decl.sites a.size, (decl.root a.size).decl.descend? s.path = some (s.names, s.decl) :=
    Site.descend?_below (Nat.lt_succ_self _) rfl rfl
  have hroot : decl.root a.size ∈ decl.root a.size :: decl.sites a.size := mem_cons_self
  have hmessages : (decl.fileNode a.size).messages = (decl.sites a.size).map (·.id) :=
    decl.numbers_messages a.size
  have hdecls : (decl.sites a.size).map (·.decl) = MessageDecl.preorder decl.messages := Site.decls_below
  refine ⟨b, decl.fileNode a.size, hadd, h.file?, rfl, h.same, ?_, ?_, ?_, ?_,
    map_extension? h hroot, fun id hid => ?_, fun id hid => ?_, path_injective h⟩
  · have hextensions : (decl.sites a.size).flatMap (fun s => b.extensionsOf s.id) =
        (decl.sites a.size).flatMap fun s => decl.numbers a.size (·.isIn s.id .extension) :=
      flatMap_congr fun s hs => by
        obtain ⟨m, hm, _, _, _, hextensions⟩ := message?_site h hs
        rw [extensionsOf, hm, Option.map_some, Option.getD_some, hextensions]
    rw [hmessages, flatMap_map, hextensions, ← hmessages, h.size, Nat.add_assoc, Nat.add_sub_cancel_left,
      Nat.add_comm 1, range'_succ]
    exact (decl.perm_numbers a.size).cons a.size
  · rw [hmessages, map_map, ← hdecls, map_map]
    refine map_congr_left fun s hs => ?_
    obtain ⟨m, hm, ⟨hdecl, _⟩, _⟩ := message?_site h hs
    simp only [Function.comp_apply, messageDecl?, hm, Option.map_some, hdecl]
  · have htop : b.topLevelMessages a.size (decl.fileNode a.size) =
        b.childrenAmong a.size (decl.fileNode a.size).messages := by
      refine filter_congr fun id hid => ?_
      obtain ⟨e, he, _⟩ := FileDecl.mem_numbers (p := (·.kind.sort == .message)).mp hid
      rw [h.isChild he, parent?, h.nodes e id he]
      rfl
    rw [htop, FileDecl.fileNode, h.childrenAmong]
    refine (map_messageDecl? h (FileDecl.messages_in hroot)).trans ?_
    rw [FileDecl.nested_in hroot]
    rfl
  · rw [FileDecl.fileNode, map_enum? h (decl.filter_sort_enum a.size), flatMap_cons, ← hdecls, flatMap_map]
    rfl
  · obtain ⟨s, hs, rfl⟩ := mem_map.mp (hmessages ▸ hid)
    obtain ⟨m, hm, hdecl, hknows⟩ := knows h hs
    obtain ⟨hindexes, hnames, hpath⟩ := message_position h hs
    rw [hindexes, hnames, hdescend s hs, ← hdecl]
    exact ⟨m, hm, hknows, rfl, hpath⟩
  · obtain ⟨⟨s, d, i⟩, _, ⟨hs, hd⟩, hget⟩ := exists_of_forall₂ (forall₂_enums h) hid
    obtain ⟨hindexes, hnames, hpath⟩ := enum_position h hs hget
    refine ⟨s.path, i, d, enum?_eq_some.mpr ⟨_, kind?_of_get? hget⟩, hindexes, ?_, hpath⟩
    have hreach : (decl.root a.size).decl.descend? s.path = some (s.names, s.decl) := by
      rcases mem_cons.mp hs with rfl | hs
      · rfl
      · exact hdescend s hs
    rw [enumAt?, hreach, hnames]
    simp only [Option.bind_some, hd, Option.map_some]

end Protobind.Arena
