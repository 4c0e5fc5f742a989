import Mathlib.Data.List.Nodup
import Protobind.Schema.Site

/-!
# Places of messages

The messages of a file have numbers that follow each other, outer ones first, and each knows the
positions and names that lead to its declaration (`Site.descend?_below`).
-/

namespace Protobind

open List

namespace MessageDecl

theorem sizeOf_nested_lt (decl : MessageDecl) (decls : List MessageDecl) :
    sizeOf decl.nested < sizeOf (decl :: decls) := by
  cases decl
  simp only [mk.sizeOf_spec, List.cons.sizeOf_spec]
  omega

/-- An induction over messages and all messages inside them. -/
@[elab_as_elim]
theorem forest_induction {P : List MessageDecl → Prop} (nil : P [])
    (cons : ∀ decl decls, P decl.nested → P decls → P (decl :: decls)) : ∀ decls, P decls
  | [] => nil
  | decl :: decls =>
    cons decl decls (forest_induction nil cons decl.nested) (forest_induction nil cons decls)
termination_by decls => sizeOf decls
decreasing_by
  · exact sizeOf_nested_lt decl decls
  · simp only [List.cons.sizeOf_spec]
    omega

/-- Messages and all messages inside them, outer ones first. -/
def preorder : List MessageDecl → List MessageDecl
  | [] => []
  | decl :: decls => decl :: preorder decl.nested ++ preorder decls
termination_by decls => sizeOf decls
decreasing_by
  · exact sizeOf_nested_lt decl decls
  · simp only [List.cons.sizeOf_spec]
    omega

/-- Follows positions into a message: the names on the way, and the message that they lead to. -/
def descend? (decl : MessageDecl) : List Nat → Option (List String × MessageDecl)
  | [] => some ([], decl)
  | i :: path => decl.nested[i]?.bind fun next =>
    (next.descend? path).map fun r => (next.name :: r.1, r.2)

theorem descend?_append (i : Nat) : ∀ (decl : MessageDecl) (path : List Nat),
    decl.descend? (path ++ [i]) = (decl.descend? path).bind fun r =>
      r.2.nested[i]?.map fun next => (r.1 ++ [next.name], next)
  | decl, [] => by
    cases h : decl.nested[i]? <;> simp [descend?, h]
  | decl, j :: path => by
    cases h : decl.nested[j]? with
    | none => simp [descend?, h]
    | some next =>
      simp only [cons_append, descend?, h, Option.bind_some, descend?_append i next path]
      cases next.descend? path with
      | none => rfl
      | some r => cases h : r.2.nested[i]? <;> simp [h]

end MessageDecl

namespace Site

variable {outer e p : Site} {index id q : Nat} {decls : List MessageDecl}

theorem below_cons (outer : Site) (index id : Nat) (decl : MessageDecl) (decls : List MessageDecl) :
    outer.below index id (decl :: decls) = outer.inner index id decl ::
      (outer.inner index id decl).below 0 (id + 1) decl.nested ++
        outer.below (index + 1) (id + 1 +
          ((outer.inner index id decl).below 0 (id + 1) decl.nested).length) decls := by
  cases decl
  simp only [below, nest, length_cons, Nat.add_assoc, Nat.add_comm 1]

theorem decls_below : (outer.below index id decls).map (·.decl) = MessageDecl.preorder decls := by
  induction decls using MessageDecl.forest_induction generalizing outer index id with
  | nil =>
    rw [MessageDecl.preorder]
    rfl
  | cons decl decls hinside hrest =>
    rw [below_cons, MessageDecl.preorder, map_append, map_cons, hinside, hrest]
    rfl

theorem ids_below (outer : Site) (index id : Nat) (decls : List MessageDecl) :
    (outer.below index id decls).map (·.id) =
      range' id (outer.below index id decls).length := by
  induction decls using MessageDecl.forest_induction generalizing outer index id with
  | nil => rfl
  | cons decl decls hinside hrest =>
    rw [below_cons, map_append, map_cons, hinside, hrest, length_append, length_cons, ← range'_append,
      range'_succ, Nat.one_mul, Nat.add_right_comm]
    rfl

theorem bounds_below (h : e ∈ outer.below index id decls) :
    id ≤ e.id ∧ e.id < id + (outer.below index id decls).length := by
  have hmem := mem_map_of_mem (f := (·.id)) h
  rw [ids_below, mem_range'_1] at hmem
  exact hmem

/-- A message stands inside one of the others, at its position. -/
theorem parent_below (hid : outer.id < id) (hdecls : outer.decl.nested.drop index = decls) :
    ∀ e ∈ outer.below index id decls, ∃ p ∈ outer :: outer.below index id decls,
      p.id < e.id ∧ ∃ i, e = p.inner i e.id e.decl ∧ p.decl.nested[i]? = some e.decl := by
  induction decls using MessageDecl.forest_induction generalizing outer index id with
  | nil => exact fun e he => absurd he not_mem_nil
  | cons decl decls hinside hrest =>
    have hnext : outer.decl.nested.drop (index + 1) = decls := by
      rw [← drop_drop, hdecls]
      rfl
    rw [below_cons]
    intro e he
    rcases mem_append.mp he with he | he
    · rcases mem_cons.mp he with rfl | he
      · refine ⟨outer, mem_cons_self, hid, index, rfl, ?_⟩
        rw [← Nat.add_zero index, ← getElem?_drop, hdecls]
        rfl
      · obtain ⟨p, hp, hrest⟩ := hinside (Nat.lt_succ_self id) rfl e he
        exact ⟨p, mem_cons_of_mem _ (mem_append_left _ hp), hrest⟩
    · obtain ⟨p, hp, hrest⟩ := hrest (by omega) hnext e he
      refine ⟨p, ?_, hrest⟩
      rcases mem_cons.mp hp with rfl | hp
      · exact mem_cons_self
      · exact mem_cons_of_mem _ (mem_append_right _ hp)

/-- No message stands inside a number that is not among them. -/
theorem filter_below_eq_nil (hid : outer.id < id) (hdecls : outer.decl.nested.drop index = decls)
    (hq : q ≠ outer.id) (hout : q < id ∨ id + (outer.below index id decls).length ≤ q) :
    (outer.below index id decls).filter (·.parent? == some q) = [] := by
  refine filter_eq_nil_iff.mpr fun e he hparent => ?_
  obtain ⟨p, hp, _, i, heq, _⟩ := parent_below hid hdecls e he
  rw [heq, beq_iff_eq] at hparent
  have hsame : p.id = q := Option.some.inj hparent
  rcases mem_cons.mp hp with rfl | hp
  · exact hq hsame.symm
  · have hbounds := bounds_below hp
    omega

/-- The messages that stand inside another one are those that it declares, in order. -/
theorem children_below (hid : outer.id < id) (hdecls : outer.decl.nested.drop index = decls) :
    ((outer.below index id decls).filter (·.parent? == some outer.id)).map (·.decl) = decls ∧
      ∀ e ∈ outer.below index id decls,
        ((outer.below index id decls).filter (·.parent? == some e.id)).map (·.decl) =
          e.decl.nested := by
  induction decls using MessageDecl.forest_induction generalizing outer index id with
  | nil => exact ⟨rfl, fun e he => absurd he not_mem_nil⟩
  | cons decl decls hinside hrest =>
    have hnext : outer.decl.nested.drop (index + 1) = decls := by
      rw [← drop_drop, hdecls]
      rfl
    rw [below_cons]
    have hself : (outer.inner index id decl).id < id + 1 := Nat.lt_succ_self id
    have hparent : (outer.inner index id decl).parent? = some outer.id := rfl
    have hdecl : (outer.inner index id decl).decl = decl := rfl
    have hown : (outer.inner index id decl).id = id := rfl
    generalize outer.inner index id decl = site at *
    have hnested : site.decl.nested.drop 0 = decl.nested := by rw [hdecl, drop_zero]
    obtain ⟨hkids, hall⟩ := hinside hself hnested
    have hin {q : Nat} := filter_below_eq_nil (q := q) hself hnested
    have hbounds {e : Site} (h : e ∈ site.below 0 (id + 1) decl.nested) := bounds_below h
    generalize site.below 0 (id + 1) decl.nested = inside at *
    have hlater : outer.id < id + 1 + inside.length := by omega
    obtain ⟨hmore, hallMore⟩ := hrest hlater hnext
    have hout {q : Nat} (hq : q ≠ outer.id) (hlt : q < id + 1 + inside.length) :=
      filter_below_eq_nil hlater hnext hq (.inl hlt)
    refine ⟨?_, fun e he => ?_⟩
    · rw [filter_append, filter_cons_of_pos (by rw [hparent]; exact beq_self_eq_true _),
        hin (by omega) (.inl (by omega)), map_append, map_cons, map_nil, hmore, hdecl]
      rfl
    · rw [filter_append, map_append]
      rcases mem_append.mp he with he | he
      · have hne : e.id ≠ outer.id ∧ e.id < id + 1 + inside.length := by
          rcases mem_cons.mp he with rfl | he
          · omega
          · have := hbounds he
            omega
        rw [hout hne.1 hne.2, map_nil, append_nil,
          filter_cons_of_neg (by simpa [hparent] using Ne.symm hne.1)]
        rcases mem_cons.mp he with rfl | he
        · exact hdecl ▸ hkids
        · exact hall e he
      · have hlate := bounds_below he
        rw [filter_cons_of_neg (by simp [hparent]; omega), hin (by omega) (.inr (by omega)), map_nil,
          nil_append]
        exact hallMore e he

/-- Positions lead to one message only. -/
theorem nodup_paths_below (outer : Site) (index id : Nat) (decls : List MessageDecl) :
    (∀ e ∈ outer.below index id decls, ∃ i t, index ≤ i ∧ e.path = outer.path ++ i :: t) ∧
      ((outer.below index id decls).map (·.path)).Nodup := by
  induction decls using MessageDecl.forest_induction generalizing outer index id with
  | nil => exact ⟨fun e he => absurd he not_mem_nil, .nil⟩
  | cons decl decls hinside hrest =>
    obtain ⟨hpaths, hnodup⟩ := hinside (outer.inner index id decl) 0 (id + 1)
    rw [below_cons]
    have hfirst : ∀ e ∈ outer.inner index id decl ::
        (outer.inner index id decl).below 0 (id + 1) decl.nested,
          ∃ t, e.path = outer.path ++ index :: t := by
      refine forall_mem_cons.mpr ⟨⟨[], rfl⟩, fun e he => ?_⟩
      obtain ⟨i, t, _, heq⟩ := hpaths e he
      exact ⟨i :: t, heq.trans (append_assoc ..)⟩
    obtain ⟨hmore, hnodupMore⟩ := hrest outer (index + 1) (id + 1 +
      ((outer.inner index id decl).below 0 (id + 1) decl.nested).length)
    refine ⟨fun e he => ?_, ?_⟩
    · rcases mem_append.mp he with he | he
      · obtain ⟨t, heq⟩ := hfirst e he
        exact ⟨index, t, Nat.le_refl _, heq⟩
      · obtain ⟨i, t, hi, heq⟩ := hmore e he
        exact ⟨i, t, Nat.le_of_succ_le hi, heq⟩
    · rw [map_append]
      refine Nodup.append (nodup_cons.mpr ⟨fun hmem => ?_, hnodup⟩) hnodupMore fun path hpath hpath' => ?_
      · obtain ⟨e, he, heq⟩ := mem_map.mp hmem
        obtain ⟨i, t, _, hlonger⟩ := hpaths e he
        simpa using congrArg length (heq.symm.trans hlonger)
      · obtain ⟨e, he, rfl⟩ := mem_map.mp hpath
        obtain ⟨e', he', heq⟩ := mem_map.mp hpath'
        obtain ⟨t, ht⟩ := hfirst e he
        obtain ⟨i, t', hi, ht'⟩ := hmore e' he'
        have hsame := append_cancel_left (ht'.symm.trans (heq.trans ht))
        have hindex : i = index := (cons.inj hsame).1
        omega

/-- What holds of a message, and with each of those inside it also of what that one holds, holds of all. -/
theorem induction_below {P : Site → Prop} (hid : outer.id < id) (hself : P outer)
    (hstep : ∀ p e i, e ∈ outer.below 0 id outer.decl.nested → p.id < e.id →
      e = p.inner i e.id e.decl → p.decl.nested[i]? = some e.decl → P p → P e) :
    ∀ e ∈ outer.below 0 id outer.decl.nested, P e := by
  have hall : ∀ n, ∀ e ∈ outer.below 0 id outer.decl.nested, e.id < n → P e := by
    intro n
    induction n with
    | zero => exact fun _ _ h => absurd h (Nat.not_lt_zero _)
    | succ n ih =>
      intro e he hlt
      obtain ⟨p, hp, hless, i, heq, hget⟩ := parent_below hid rfl e he
      refine hstep p e i he hless heq hget ?_
      rcases mem_cons.mp hp with rfl | hp
      · exact hself
      · exact ih p hp (by omega)
  exact fun e he => hall _ e he (Nat.lt_succ_self _)

theorem descend?_below (hid : outer.id < id) (hpath : outer.path = []) (hnames : outer.names = []) :
    ∀ e ∈ outer.below 0 id outer.decl.nested,
      outer.decl.descend? e.path = some (e.names, e.decl) := by
  refine induction_below hid ?_ fun p e i _ _ heq hget hp => ?_
  · rw [hpath, hnames]
    rfl
  · rw [heq]
    simp only [inner, MessageDecl.descend?_append, hp, Option.bind_some, hget, Option.map_some]

end Site

end Protobind
