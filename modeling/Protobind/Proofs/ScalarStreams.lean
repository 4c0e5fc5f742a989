import Protobind.Proofs.Scalars

/-!
# Streams of single values

Values of any kinds are written one behind the other and read back in order: every form tells its
own end. An integer that is too large for its kind comes back as the one that the kind cannot tell
from it (`Kind.reduced`), and the cursor ends behind the last value (`scalars_read_back`).
-/

namespace Protobind

variable {kind : Kind} {v : Value} (reg : Registry)

/-- Whether a value can be written in the form of a kind and be told from what follows it. Integers
may be of any size, but for the zigzag forms. -/
def Kind.Streams (kind : Kind) (v : Value) : Prop :=
  match kind with
  | .string => ∃ s, v = .text s
  | .bytes => ∃ bs, v = .bytes bs
  | kind => ∃ n, v = .int n ∧ kind.Counts n

/-- What a value of a kind comes back as. -/
def Value.reduced (kind : Kind) : Value → Value
  | .int n => .int (kind.reduced n)
  | v => v

/-- A table entry that asks for nothing but a kind. -/
def Kind.slot (kind : Kind) : Slot where
  attr := ""
  kind := .known kind
  tag := { text := "", wireType := kind.encoding.wireType, number := 0, repeated := false
           required := false, name := "" }

/-- Writes values of some kinds one behind the other. -/
def writeScalars (items : List (Kind × Value)) : Result Bytes :=
  Encode.each (fun p => Encode.value (fun _ => .ok []) (.known p.1) p.2) items

/-- Reads values of some kinds one after the other, and leaves the cursor behind them. -/
def Buffer.readScalars : List Kind → Buffer → Result (List Value × Buffer)
  | [], b => .ok ([], b)
  | kind :: kinds, b => do
    let (v, rest) ← Decode.scalar reg kind.slot b.unread
    let (vs, b) ← readScalars kinds { b with cursor := b.data.length - rest.length }
    pure (v :: vs, b)

theorem Kind.slot_resolves (h : kind.isMessage = false) : kind.slot.Resolves reg where
  known := ⟨kind, rfl⟩
  message hmessage := by cases hmessage.symm.trans h
  enum _ _ _ hname := by cases hname

/-- A value is written, and read back reduced, whatever follows. -/
theorem stream_value (h : kind.Streams v) :
    ∃ bs, (∀ nested, Encode.value nested (.known kind) v = .ok bs) ∧
      (Short bs → ∀ rest, Decode.scalar reg kind.slot (bs ++ rest) = .ok (v.reduced kind, rest)) := by
  cases kind with
  | string =>
    obtain ⟨s, rfl⟩ := h
    refine ⟨writeText s, fun _ => rfl, fun hlt rest => ?_⟩
    exact Decode.mapParse_of_read (readText_writeText (Short.of_writeRun hlt) rest)
  | bytes =>
    obtain ⟨data, rfl⟩ := h
    refine ⟨writeRun data, fun _ => rfl, fun hlt rest => ?_⟩
    exact Decode.mapParse_of_read (readRun_writeRun (Short.of_writeRun hlt) rest)
  | message | group =>
    obtain ⟨n, _, hcounts⟩ := h
    cases hcounts
  | _ =>
    obtain ⟨n, rfl, hcounts⟩ := h
    obtain ⟨bs, w, hwritten, _, hplain, hback⟩ := integer_back (v := .int n)
      (Kind.slot_resolves reg rfl) rfl rfl hcounts
    obtain rfl := hplain rfl
    exact ⟨bs, hwritten, fun _ => hback⟩

/-- Values that follow the first bytes of a buffer are read one after the other. -/
theorem readScalars_writeScalars : ∀ (items : List (Kind × Value)),
    (∀ p ∈ items, p.1.Streams p.2) → ∃ bs, writeScalars items = .ok bs ∧
      (Short bs → ∀ start rest,
        Buffer.readScalars reg (items.map (·.1)) { data := start ++ bs ++ rest, cursor := start.length } =
          .ok (items.map fun p => p.2.reduced p.1,
            { data := start ++ bs ++ rest, cursor := (start ++ bs).length }))
  | [], _ => ⟨[], rfl, fun _ start rest => by simp [Buffer.readScalars]⟩
  | p :: items, h => by
    obtain ⟨hp, hitems⟩ := List.forall_mem_cons.mp h
    obtain ⟨first, hfirst, hback⟩ := stream_value reg hp
    obtain ⟨bs, hbs, hrest⟩ := readScalars_writeScalars items hitems
    refine ⟨first ++ bs, ?_, fun hlt start rest => ?_⟩
    · unfold writeScalars at hbs ⊢
      rw [Encode.each, hfirst, hbs]
      rfl
    · have hread := hback hlt.left (bs ++ rest)
      have hnext := hrest hlt.right (start ++ first) rest
      have hunread : Buffer.unread
          { data := start ++ (first ++ bs) ++ rest, cursor := start.length } = first ++ (bs ++ rest) := by
        simp [Buffer.unread]
      have hcursor : (start ++ (first ++ bs) ++ rest).length - (bs ++ rest).length =
          (start ++ first).length := by
        simp only [List.length_append]
        omega
      rw [List.map_cons, Buffer.readScalars, hunread, hread]
      simp only [ok_bind, hcursor]
      simp only [List.append_assoc] at hnext ⊢
      rw [hnext]
      rfl

/-- Values of any kinds, written one behind the other, are read back reduced to their kinds, and the
cursor is at the end then. -/
theorem scalars_read_back (items : List (Kind × Value)) (h : ∀ p ∈ items, p.1.Streams p.2) :
    ∃ data, writeScalars items = .ok data ∧ (data.length < 18446744073709551616 →
      ∃ b, Buffer.readScalars reg (items.map (·.1)) { data } =
          .ok (items.map fun p => p.2.reduced p.1, b) ∧
        b.data = data ∧ b.cursor = data.length ∧ b.atEnd = true) := by
  obtain ⟨data, hwritten, hread⟩ := readScalars_writeScalars reg items h
  refine ⟨data, hwritten, fun hlt => ⟨{ data, cursor := data.length }, ?_, rfl, rfl, ?_⟩⟩
  · simpa using hread hlt [] []
  · simp [Buffer.atEnd]

theorem scalars_read_back_wrapped :
    let items := [(Kind.int32, Value.int 4294967301), (.fixed32, .int (-1)), (.bytes, .bytes [7])]
    (∀ p ∈ items, p.1.Streams p.2) ∧
      writeScalars items = .ok [133, 128, 128, 128, 16, 255, 255, 255, 255, 1, 7] ∧
      ∃ b, Buffer.readScalars {} (items.map (·.1))
          { data := [133, 128, 128, 128, 16, 255, 255, 255, 255, 1, 7] } =
          .ok ([.int 5, .int 4294967295, .bytes [7]], b) ∧ b.cursor = 11 ∧ b.atEnd = true := by
  intro items
  have hstreams : ∀ p ∈ items, p.1.Streams p.2 := by
    simp [items, Kind.Streams, Kind.Counts, Kind.residues?]
  have hwritten : writeScalars items = .ok [133, 128, 128, 128, 16, 255, 255, 255, 255, 1, 7] := rfl
  obtain ⟨data, hdata, hread⟩ := scalars_read_back {} items hstreams
  cases hwritten.symm.trans hdata
  obtain ⟨b, hb, _, hcursor, hend⟩ := hread (by decide)
  exact ⟨hstreams, hwritten, b, hb, hcursor, hend⟩

end Protobind
