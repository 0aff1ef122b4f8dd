import Acp.Dispatch
import Acp.Flatten
import Mathlib.Tactic.FinCases
/-!
# Verbatim — forwarded content is given back as it came

A content block or a tool call's content that carries only declared members, none of them null, and no empty `_meta`
(`clean`) is written back as the very JSON it was read from (`content_verbatim`), whichever of its optional members are
there and however deep it nests.  The two numbers a block can hold are asked to be ones that their codec writes back.
-/
namespace Acp

open Wire

/-! ## Clean JSON -/

/-- **Members under `ks` alone**, none of them null, and no empty `_meta`. -/
def OnlyDeclared (ks : List String) (o : Json.Members) : Prop :=
  ∀ k y, o.find? k = some y → k ∈ ks ∧ y ≠ .null ∧ (k = "_meta" → ∃ m, y = .obj m ∧ m ≠ ∅)

namespace OnlyDeclared

variable {ks : List String}

theorem empty : OnlyDeclared ks ∅ := fun k y h => by
  rw [FinMap.find?_empty] at h; cases h

theorem insert {o : Json.Members} {k : String} {y : Json} (h : OnlyDeclared ks o) (hk : k ∈ ks) (hy : y ≠ .null)
    (hm : k = "_meta" → ∃ m, y = .obj m ∧ m ≠ ∅) : OnlyDeclared ks (o.insert k y) := fun k' y' h' => by
  rw [FinMap.find?_insert] at h'
  split at h'
  · rename_i he
    cases h'; subst he
    exact ⟨hk, hy, hm⟩
  · exact h k' y' h'

end OnlyDeclared

/-- What a JSON value that is read as an `α` may carry: by default anything. -/
class Clean (α : Type) where
  clean : Jsonrpc → Json → Prop := fun _ _ => True

def clean (α : Type) [Clean α] (L : Jsonrpc) (j : Json) : Prop := Clean.clean α L j

/-- An object with the keys of `α` alone; what stands under some of them is clean in turn. -/
def cleanRecord (α : Type) [Record α] (L : Jsonrpc) (nested : List (String × (Json → Prop))) (j : Json) : Prop :=
  ∀ o, j = .obj o → OnlyDeclared ((Record.fields L : List (FieldSpec α)).map FieldSpec.key) o ∧
    ∀ p ∈ nested, ∀ y, o.find? p.1 = some y → p.2 y

/-- The object without its tag, clean for the arm that the tag names. -/
def cleanSum (tag : String) (arms : List (String × (Json → Prop))) (j : Json) : Prop :=
  ∀ p ∈ arms, j.find? tag = some (.str p.1) → p.2 (j.erase tag)

theorem cleanSum_insert {tag label : String} {arms : List (String × (Json → Prop))} {o : Json.Members}
    (ht : o.find? tag = none) (h : ∀ p ∈ arms, label = p.1 → p.2 (.obj o)) :
    cleanSum tag arms (.obj (o.insert tag (.str label))) := fun p hp hl => by
  rw [Json.find?_obj, FinMap.find?_insert_self] at hl
  rw [Json.erase_obj, FinMap.erase_insert ht]
  exact h p hp (Json.str.inj (Option.some.inj hl))

theorem cleanRecord_obj {α : Type} [Record α] {L : Jsonrpc} {nested : List (String × (Json → Prop))} {o : Json.Members}
    (hd : OnlyDeclared ((Record.fields L : List (FieldSpec α)).map FieldSpec.key) o)
    (hn : ∀ p ∈ nested, ∀ y, o.find? p.1 = some y → p.2 y) : cleanRecord α L nested (.obj o) := fun o' he => by
  cases he
  exact ⟨hd, hn⟩

/-- **The codec writes back what it reads from `j`**, if it reads it. -/
def Reencodes {α : Type} (c : Codec α) (j : Json) : Prop := ∀ a, c.decode j = .ok a → c.encode a = j

instance : Clean String where

-- a double codec that reads integers need not write one back: it is asked of the numbers that are there
instance : Clean Int64 where
  clean L j := Reencodes L.int64 j

instance : Clean Double where
  clean L j := Reencodes L.double j

instance {α : Type} [StringEnum α] : Clean α where

instance {α : Type} [Clean α] : Clean (List α) where
  clean L j := ∀ xs, j = .arr xs → ∀ x ∈ xs, clean α L x

instance : Clean Annotations where
  clean L := cleanRecord Annotations L [("priority", clean Double L)]

instance : Clean TextResource where
  clean L := cleanRecord TextResource L []

instance : Clean BlobResource where
  clean L := cleanRecord BlobResource L []

/-- Clean for the resource that is read: a text, where there is one. -/
instance : Clean EmbeddedResource where
  clean L j := if j.contains "text" then clean TextResource L j else clean BlobResource L j

instance : Clean TextContent where
  clean L := cleanRecord TextContent L [("annotations", clean Annotations L)]

instance : Clean ImageContent where
  clean L := cleanRecord ImageContent L [("annotations", clean Annotations L)]

instance : Clean AudioContent where
  clean L := cleanRecord AudioContent L [("annotations", clean Annotations L)]

instance : Clean ResourceLinkContent where
  clean L := cleanRecord ResourceLinkContent L [("size", clean Int64 L), ("annotations", clean Annotations L)]

instance : Clean ResourceContent where
  clean L := cleanRecord ResourceContent L
    [("resource", clean EmbeddedResource L), ("annotations", clean Annotations L)]

instance : Clean ContentBlock where
  clean L := cleanSum "type" [
    ("text", clean TextContent L), ("image", clean ImageContent L), ("audio", clean AudioContent L),
    ("resource_link", clean ResourceLinkContent L), ("resource", clean ResourceContent L)]

instance : Clean TccContent where
  clean L := cleanRecord TccContent L [("content", clean ContentBlock L)]

instance : Clean TccDiff where
  clean L := cleanRecord TccDiff L []

instance : Clean TccTerminal where
  clean L := cleanRecord TccTerminal L []

instance : Clean ToolCallContent where
  clean L := cleanSum "type" [
    ("content", clean TccContent L), ("diff", clean TccDiff L), ("terminal", clean TccTerminal L)]

/-- **What is clean and is read is written back.** -/
class Verbatim (α : Type) [CodecOf α] [Clean α] : Prop where
  back : ∀ {L : Jsonrpc}, L.Lawful → ∀ {j : Json} {v : α}, clean α L j →
    L.fromJson α j = .ok v → L.toJson v = j

instance : Verbatim String where
  back hL _ _ _ h := (hL.string_encode _).trans (hL.string_decode_inv _ _ h).symm

instance : Verbatim Int64 where
  back _ _ v hj h := hj v h

instance : Verbatim Double where
  back _ _ v hj h := hj v h

instance {α : Type} [DecidableEq α] [StringEnum α] [EnumOk α] : Verbatim α where
  back hL _ v _ h := by
    obtain ⟨s, rfl, hs⟩ := hL.enum_decode_inv _ _ _ h
    exact hL.enum_encode _ v s EnumOk.fst_nodup hs

instance {α : Type} [CodecOf α] [Clean α] [Verbatim α] : Verbatim (List α) where
  back {L} hL j as hj h := by
    obtain ⟨xs, rfl, hall⟩ := hL.list_decode_inv h
    have hxs := hj xs rfl
    refine (hL.list_encode _ as).trans (congrArg Json.arr ?_)
    clear h hj
    induction hall with
    | nil => rfl
    | cons ha _ ih =>
      rw [List.map_cons, ih (fun x hx => hxs x (List.mem_cons_of_mem _ hx))]
      exact congrArg (· :: _) (Verbatim.back hL (hxs _ List.mem_cons_self) ha)

/-! ## Fields -/

/-- What a clean object may hold under a field's key. -/
def Tidied (nested : List (String × (Json → Prop))) (k : String) (x : Option Json) : Prop :=
  ∀ y, x = some y → y ≠ .null ∧ (k = "_meta" → ∃ m, y = .obj m ∧ m ≠ ∅) ∧ ∀ p ∈ nested, p.1 = k → p.2 y

/-- **The field writes back the member it read.** -/
def Back (L : Jsonrpc) (nested : List (String × (Json → Prop))) {T : Type} (f : FieldSpec T) : Prop :=
  ∀ x t t', Tidied nested f.key x → L.read f x t = .ok t' → L.write f t' = x

section Fields

variable {L : Jsonrpc} {nested : List (String × (Json → Prop))} {T A : Type} {k : String} [CodecOf A] [Clean A]
  [Verbatim A] (hL : L.Lawful)
include hL

theorem Back.required {m : Member T A} (hget : ∀ t a, m.get (m.set t a) = a)
    (hn : ∀ y, (∀ p ∈ nested, p.1 = k → p.2 y) → clean A L y) : Back L nested (L.required k m) := by
  intro x t t' hc h
  obtain ⟨y, a, rfl, ha, rfl⟩ := hL.read_required_inv h
  obtain ⟨-, -, hp⟩ := hc y rfl
  have hw : L.write (L.required k m) (m.set t a) = some ((L.codec A).encode (m.get (m.set t a))) :=
    hL.write_required k m (L.codec A) _
  rw [hw, hget]
  exact congrArg some (Verbatim.back hL (hn y hp) ha)

theorem Back.optional {m : Member T (Option A)} (hget : ∀ t a, m.get (m.set t a) = a)
    (hn : ∀ y, (∀ p ∈ nested, p.1 = k → p.2 y) → clean A L y) : Back L nested (L.optional k m) := by
  intro x t t' hc h
  have hw : L.write (L.optional k m) t' = (m.get t').map (L.codec A).encode := hL.write_optional k m (L.codec A) t'
  rcases hL.read_optional_inv h with ⟨rfl | rfl, rfl⟩ | ⟨y, a, rfl, -, ha, rfl⟩
  · rw [hw, hget]; rfl
  · exact absurd rfl (hc .null rfl).1
  · obtain ⟨-, -, hp⟩ := hc y rfl
    rw [hw, hget]
    exact congrArg some (Verbatim.back hL (hn y hp) ha)

omit [CodecOf A] [Clean A] [Verbatim A] in
theorem Back.meta_ {m : Member T Json} (hget : ∀ t a, m.get (m.set t a) = a) : Back L nested (metaField "_meta" m) := by
  intro x t t' hc h
  cases x with
  | none =>
    have hr : L.read (metaField "_meta" m) none t = .ok (m.set t Json.object) := hL.read_meta_none "_meta" m t
    rw [hr] at h
    cases h
    exact hL.write_meta_empty "_meta" m _ (hget t Json.object)
  | some y =>
    obtain ⟨o, rfl, hne⟩ := (hc y rfl).2.1 rfl
    have hr : L.read (metaField "_meta" m) (some (.obj o)) t = .ok (m.set t (.obj o)) := hL.read_meta "_meta" m o t
    rw [hr] at h
    cases h
    exact hL.write_meta "_meta" m _ o (hget t (.obj o)) hne

end Fields

/-! ## Records -/

/-- Every field writes its member back, and no later one changes what it writes. -/
inductive AllBack (L : Jsonrpc) (nested : List (String × (Json → Prop))) {T : Type} : List (FieldSpec T) → Prop where
  | nil : AllBack L nested []
  | cons {f : FieldSpec T} {fs : List (FieldSpec T)} (hf : Back L nested f)
      (hk : ∀ g ∈ fs, ∀ t t', g.Sets t t' → L.write f t' = L.write f t) (h : AllBack L nested fs) :
      AllBack L nested (f :: fs)

namespace AllBack

variable {L : Jsonrpc} {nested : List (String × (Json → Prop))} {T A : Type} {k : String} {fs : List (FieldSpec T)}

/-- **A run over the fields leaves each of them with the member it was given.** -/
theorem run (hL : L.Lawful) (h : AllBack L nested fs) {o : Json.Members}
    (hc : ∀ f ∈ fs, Tidied nested f.key (o.find? f.key)) {t v : T} (hr : L.readAll fs o t = .ok v) :
    ∀ f ∈ fs, L.write f v = o.find? f.key := by
  induction h generalizing t with
  | nil => intro f hf; cases hf
  | @cons f fs hf hk _ ih =>
    obtain ⟨t', h1, h2⟩ := readAll_cons_inv hr
    intro g hg
    rcases List.mem_cons.1 hg with rfl | hg
    · have hback := hf _ _ _ (hc g List.mem_cons_self) h1
      exact foldlM_invariant (P := fun w => L.write g w = o.find? g.key) fs t' v
        (fun i hi s s' hs hstep => (hk i hi s s' (hL.read_sets hstep)).trans hs) hback h2
    · exact ih (fun f hf => hc f (List.mem_cons_of_mem _ hf)) h2 g hg

variable [CodecOf A] [Clean A] [Verbatim A] (hL : L.Lawful)
include hL

theorem required {m : Member T A} (h : AllBack L nested fs)
    (hget : ∀ t a, m.get (m.set t a) = a := by intro t a; rfl)
    (hk : ∀ g ∈ fs, ∀ t t', g.Sets t t' → m.get t' = m.get t := by
      intro g hg t t' hs; fin_cases hg <;> (obtain ⟨a, rfl⟩ := hs; rfl))
    (hn : ∀ y, (∀ p ∈ nested, p.1 = k → p.2 y) → clean A L y := by
      intro y h
      first | exact trivial | exact h _ (.head _) rfl | exact h _ (.tail _ (.head _)) rfl) :
    AllBack L nested (L.required k m :: fs) :=
  .cons (.required hL hget hn) (fun g hg t t' hs => by
    have hw : ∀ v, L.write (L.required k m) v = some ((L.codec A).encode (m.get v)) :=
      hL.write_required k m (L.codec A)
    rw [hw, hw, hk g hg t t' hs]) h

theorem optional {m : Member T (Option A)} (h : AllBack L nested fs)
    (hget : ∀ t a, m.get (m.set t a) = a := by intro t a; rfl)
    (hk : ∀ g ∈ fs, ∀ t t', g.Sets t t' → m.get t' = m.get t := by
      intro g hg t t' hs; fin_cases hg <;> (obtain ⟨a, rfl⟩ := hs; rfl))
    (hn : ∀ y, (∀ p ∈ nested, p.1 = k → p.2 y) → clean A L y := by
      intro y h
      first | exact trivial | exact fun _ _ _ _ => trivial | exact h _ (.head _) rfl |
        exact h _ (.tail _ (.head _)) rfl) :
    AllBack L nested (L.optional k m :: fs) :=
  .cons (.optional hL hget hn)
    (fun g hg t t' hs => hL.write_optional_congr (hk g hg t t' hs)) h

omit [CodecOf A] [Clean A] [Verbatim A] in
theorem meta_ {m : Member T Json} (hget : ∀ t a, m.get (m.set t a) = a := by intro t a; rfl) :
    AllBack L nested [metaField "_meta" m] :=
  .cons (.meta_ hL hget) (fun g hg => by cases hg) .nil

end AllBack

/-- **A clean record is written back**: its own members by its fields, and there are no others. -/
theorem record_back {α : Type} [Record α] [Normal α] [RecordOk α] {nested : List (String × (Json → Prop))} {L : Jsonrpc}
    (hL : L.Lawful) (hb : AllBack L nested (Record.fields L : List (FieldSpec α))) {j : Json} {v : α}
    (hj : cleanRecord α L nested j) (h : L.fromJson α j = .ok v) : L.toJson v = j := by
  obtain ⟨o, rfl, hr⟩ := hL.record_decode_inv h
  obtain ⟨hdecl, hnest⟩ := hj o rfl
  have hrun : ∀ f ∈ (Record.fields L : List (FieldSpec α)), L.write f v = o.find? f.key := hb.run hL (fun f hf y hy =>
    have hd := hdecl f.key y hy
    ⟨hd.2.1, hd.2.2, fun p hp hk => hnest p hp y (hk ▸ hy)⟩) hr
  refine (record_encode_obj hL v).trans (congrArg Json.obj (FinMap.ext_find? (fun k => ?_)))
  by_cases hk : k ∈ (Record.fields L : List (FieldSpec α)).map FieldSpec.key
  · obtain ⟨f, hf, rfl⟩ := List.mem_map.1 hk
    exact (find?_writeAll_empty (RecordOk.keys_nodup L) hf v).trans (hrun f hf)
  · rw [find?_writeAll_empty_of_notMem hk]
    cases hy : o.find? k with
    | none => rfl
    | some y => exact absurd (hdecl k y hy).1 hk

instance : Verbatim Annotations where
  back hL _ _ := record_back hL (.optional hL <| .optional hL <| .optional hL <| .meta_ hL)

instance : Verbatim TextResource where
  back hL _ _ := record_back hL (.required hL <| .required hL <| .optional hL <| .meta_ hL)

instance : Verbatim BlobResource where
  back hL _ _ := record_back hL (.required hL <| .required hL <| .optional hL <| .meta_ hL)

instance : Verbatim EmbeddedResource where
  back {L} hL j v hj h := by
    have hj' : if j.contains "text" then clean TextResource L j else clean BlobResource L j := hj
    rcases embeddedResource_decode_inv h with ⟨x, rfl, hd⟩ | ⟨x, rfl, hd, ht⟩
    · obtain ⟨y, hy⟩ := textResource_has_text hL hd
      rw [if_pos (by unfold Json.contains; rw [hy]; rfl)] at hj'
      have hw : L.toJson x = j := Verbatim.back hL hj' hd
      exact hw
    · rw [if_neg (by unfold Json.contains; rw [ht]; simp)] at hj'
      have hw : L.toJson x = j := Verbatim.back hL hj' hd
      exact hw

instance : Verbatim TextContent where
  back hL _ _ := record_back hL (.required hL <| .optional hL <| .meta_ hL)

instance : Verbatim ImageContent where
  back hL _ _ := record_back hL (.required hL <| .required hL <| .optional hL <| .optional hL <|
    .meta_ hL)

instance : Verbatim AudioContent where
  back hL _ _ := record_back hL (.required hL <| .required hL <| .optional hL <| .meta_ hL)

instance : Verbatim ResourceLinkContent where
  back hL _ _ := record_back hL (.required hL <| .required hL <| .optional hL <| .optional hL <|
    .optional hL <| .optional hL <| .optional hL <| .meta_ hL)

instance : Verbatim ResourceContent where
  back hL _ _ := record_back hL (.required hL <| .optional hL <| .meta_ hL)

/-! ## Tagged sums -/

/-- The arm writes back the object without the tag, if it is clean for the arm. -/
def ArmBack {S : Type} (tag : String) (arms : List (String × (Json → Prop))) (b : Arm S) : Prop :=
  ∃ p, (b.label, p) ∈ arms ∧ ∀ (o : Json.Members) (a : b.carrier), p (.obj (o.erase tag)) →
    o.find? tag = some (.str b.label) → b.codec.decode (.obj o) = .ok a → b.codec.encode a = .obj (o.erase tag)

theorem ArmBack.arm {L : Jsonrpc} (hL : L.Lawful) {S A : Type} [CodecOf A] [Clean A] [Verbatim A]
    {tag label : String} [hskip : Skips A tag] {arms : List (String × (Json → Prop))} {alt : Alt S A}
    (h : (label, clean A L) ∈ arms) : ArmBack tag arms (L.arm label alt) := by
  refine ⟨clean A L, h, fun o (a : A) hp ht hd => ?_⟩
  have ho : (o.erase tag).insert tag (.str label) = o := FinMap.insert_erase ht
  have hd' : (L.codec A).decode (.obj ((o.erase tag).insert tag (.str label))) = .ok a := ho.symm ▸ hd
  rw [hskip.skips hL] at hd'
  have hw : L.toJson a = .obj (o.erase tag) := Verbatim.back hL hp hd'
  exact hw

/-- **A clean value of a sum is written back**: its arm's part, and its tag beside it. -/
theorem sum_back {L : Jsonrpc} (hL : L.Lawful) {S : Type} [TaggedSum S] (hadd : DiscriminatorAdded L S)
    {arms : List (String × (Json → Prop))}
    (hb : ∀ b ∈ (TaggedSum.arms L : List (Arm S)), ArmBack (TaggedSum.tag S) arms b) {j : Json} {v : S}
    (hj : cleanSum (TaggedSum.tag S) arms j) (h : L.fromJson S j = .ok v) : L.toJson v = j := by
  obtain ⟨o, b, a, rfl, hmem, ht, hd, rfl⟩ := hL.sum_decode_inv h
  obtain ⟨p, hp, hback⟩ := hb b hmem
  obtain ⟨o', ho', -, hw⟩ := hadd b hmem a
  have he : b.codec.encode a = .obj (o.erase (TaggedSum.tag S)) := hback o a (hj _ hp ht) ht hd
  obtain rfl : o' = o.erase (TaggedSum.tag S) := Json.obj.inj (ho'.symm.trans he)
  rw [hw, FinMap.insert_erase ht]

instance : Verbatim ContentBlock where
  back {L} hL j v hj := sum_back hL (contentBlock_added hL) (fun b hb => show ArmBack "type" _ b by
    fin_cases hb
    · exact .arm hL (.head _)
    · exact .arm hL (.tail _ (.head _))
    · exact .arm hL (.tail _ (.tail _ (.head _)))
    · exact .arm hL (.tail _ (.tail _ (.tail _ (.head _))))
    · exact .arm hL (.tail _ (.tail _ (.tail _ (.tail _ (.head _)))))) hj

instance : Verbatim TccContent where
  back hL _ _ := record_back hL (.required hL <| .meta_ hL)

instance : Verbatim TccDiff where
  back hL _ _ := record_back hL (.required hL <| .optional hL <| .required hL <| .meta_ hL)

instance : Verbatim TccTerminal where
  back hL _ _ := record_back hL (.required hL <| .meta_ hL)

instance : Verbatim ToolCallContent where
  back {L} hL j v hj := sum_back hL (toolCallContent_added hL) (fun b hb => show ArmBack "type" _ b by
    fin_cases hb
    · exact .arm hL (.head _)
    · exact .arm hL (.tail _ (.head _))
    · exact .arm hL (.tail _ (.tail _ (.head _)))) hj

/-- **Forwarded content is untouched**: a clean content block, or tool call content, that is read is written back. -/
theorem content_verbatim (L : Jsonrpc) (hL : L.Lawful) (j : Json) :
    (∀ v : ContentBlock, L.fromJson ContentBlock j = .ok v → clean ContentBlock L j → L.toJson v = j) ∧
    ∀ v : ToolCallContent, L.fromJson ToolCallContent j = .ok v → clean ToolCallContent L j → L.toJson v = j :=
  ⟨fun _ h hj => Verbatim.back hL hj h, fun _ h hj => Verbatim.back hL hj h⟩

/-- A priority of one, that a text writes with a point. -/
def onePointZero : Double := ⟨0x3FF0000000000000⟩

/-- A blob resource with a `_meta` of its own, annotated, in a block of a tool call's content. -/
theorem content_verbatim_blob :
    reference.toJson (.content { content := .resource {
      resource := .blob { uri := "u", blob := "b", meta_ := .obj ((∅ : Json.Members).insert "k" (.bool true)) }
      annotations := some { priority := some onePointZero }
    } } : ToolCallContent) =
    .obj (((∅ : Json.Members).insert "content" (.obj ((((∅ : Json.Members).insert "resource" (.obj
      ((((∅ : Json.Members).insert "uri" (.str "u")).insert "blob" (.str "b")).insert "_meta"
        (.obj ((∅ : Json.Members).insert "k" (.bool true)))))).insert "annotations" (.obj
          ((∅ : Json.Members).insert "priority" (.float onePointZero)))).insert "type" (.str "resource")))).insert
      "type" (.str "content")) := by
  have hm : ∃ m : Json.Members, Json.obj ((∅ : Json.Members).insert "k" (.bool true)) = .obj m ∧ m ≠ ∅ :=
    ⟨_, rfl, fun he => by
      have := FinMap.isEmpty_insert (∅ : Json.Members) "k" (.bool true)
      rw [he] at this; cases this⟩
  have hresource : clean EmbeddedResource reference (.obj
      ((((∅ : Json.Members).insert "uri" (.str "u")).insert "blob" (.str "b")).insert "_meta"
        (.obj ((∅ : Json.Members).insert "k" (.bool true))))) :=
    cleanRecord_obj (.insert (.insert (.insert .empty (.head _) (by simp) (by simp)) (.tail _ (.head _)) (by simp)
      (by simp)) (.tail _ <| .tail _ <| .tail _ (.head _)) (by simp) (fun _ => hm)) (fun p hp => by cases hp)
  have hannotations : clean Annotations reference (.obj ((∅ : Json.Members).insert "priority" (.float onePointZero))) :=
    cleanRecord_obj (.insert .empty (.tail _ <| .tail _ (.head _)) (by simp) (by simp)) (fun p hp y hy => by
      fin_cases hp
      rw [FinMap.find?_insert_self] at hy
      cases hy
      exact fun x hx => by cases hx; rfl)
  refine (content_verbatim reference reference_lawful _).2 _ rfl ?_
  refine cleanSum_insert (by simp [FinMap.find?_insert]) (fun p hp hl => ?_)
  fin_cases hp
  · refine cleanRecord_obj (.insert .empty (.head _) (by simp) (by simp)) (fun p hp y hy => ?_)
    fin_cases hp
    rw [FinMap.find?_insert_self] at hy
    cases hy
    refine cleanSum_insert (by simp [FinMap.find?_insert]) (fun p hp hl => ?_)
    fin_cases hp
    · simp at hl
    · simp at hl
    · simp at hl
    · simp at hl
    · refine cleanRecord_obj (.insert (.insert .empty (.head _) (by simp) (by simp)) (.tail _ (.head _)) (by simp)
        (by simp)) (fun p hp y hy => ?_)
      fin_cases hp
      · rw [FinMap.find?_insert_of_ne _ _ (by simp), FinMap.find?_insert_self] at hy
        cases hy
        exact hresource
      · rw [FinMap.find?_insert_self] at hy
        cases hy
        exact hannotations
  · simp at hl
  · simp at hl

end Acp
