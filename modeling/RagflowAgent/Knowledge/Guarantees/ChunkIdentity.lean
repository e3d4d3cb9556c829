import RagflowAgent.Knowledge.Chunking.Document
import RagflowAgent.Text.Joined

/-!
# What the identity of a chunk tells

`derive_chunk_id` and `derive_chunk_id_v2` hash a text that joins the parts of a description of
the chunk, and within it the block ids, without escaping the separators.

* `ChunkInputs` and `ChunkInputsV2` are the arguments of the two functions, and `describe` what
  they make of them;
* `Description.pieces` is what can be read back from the text, and `identity_eq_iff` says that two
  identities are equal exactly when the contents and the pieces are;
* `Description.Plain` says that the separators do not occur, and `eq_of_pieces_eq` that then the
  pieces determine the description;
* `chunk_identities` draws the conclusion for both functions.
-/

namespace RagflowAgent
namespace Knowledge
namespace Chunking

/-! ## Descriptions -/

/-- What the identity of a chunk is derived from.  `scope` are the tenant, the version of the
document and, in the second version, the strategy and its version. -/
structure Description where
  scope : List String
  sequence : ℕ
  sourceBlockIds : List String
  content : String
  deriving DecidableEq

namespace Description

/-- What stands between the name of the algorithm and the digest of the content. -/
def middle (d : Description) : List String :=
  d.scope ++ [toString d.sequence, ",".intercalate d.sourceBlockIds]

/-- The text that is hashed. -/
def preimage (digest : String → String) (algorithm : String) (d : Description) : String :=
  "\x1f".intercalate (algorithm :: d.middle ++ [digest d.content])

def identity (digest : String → String) (algorithm : String) (d : Description) : String :=
  "chk_" ++ Agent.takeText 32 (digest (d.preimage digest algorithm))

/-- What is left of the middle when every U+001F cuts. -/
def pieces (d : Description) : List (List Char) :=
  (d.middle.map String.toList).flatMap fun text => text.splitOn '\x1f'

/-- No U+001F occurs, and in the block ids no comma. -/
def Plain (d : Description) : Prop :=
  (∀ text ∈ d.scope ++ d.sourceBlockIds, '\x1f' ∉ text.toList) ∧
    ∀ id ∈ d.sourceBlockIds, ',' ∉ id.toList

end Description

/-- The arguments of `derive_chunk_id`. -/
structure ChunkInputs where
  tenantId : String
  documentVersionId : String
  sequence : ℕ
  sourceBlockIds : List String
  content : List Char
  deriving DecidableEq

def ChunkInputs.derive (digest : String → String) (x : ChunkInputs) : Except Error String :=
  deriveChunkId digest x.tenantId x.documentVersionId x.sequence x.sourceBlockIds x.content

/-- The description of a chunk in the first version, which does not strip the content. -/
def ChunkInputs.describe (x : ChunkInputs) : Description where
  scope := [x.tenantId, x.documentVersionId].map Agent.strip
  sequence := x.sequence
  sourceBlockIds := x.sourceBlockIds
  content := String.ofList x.content

/-- The arguments of `derive_chunk_id_v2`. -/
structure ChunkInputsV2 extends ChunkInputs where
  strategyId : String
  strategyVersion : String
  deriving DecidableEq

def ChunkInputsV2.derive (digest : String → String) (x : ChunkInputsV2) : Except Error String :=
  deriveChunkIdV2 digest x.tenantId x.documentVersionId x.strategyId x.strategyVersion x.sequence
    x.sourceBlockIds x.content

def ChunkInputsV2.describe (x : ChunkInputsV2) : Description where
  scope := [x.tenantId, x.documentVersionId, x.strategyId, x.strategyVersion].map Agent.strip
  sequence := x.sequence
  sourceBlockIds := x.sourceBlockIds
  content := Agent.strip (String.ofList x.content)

section Digest

variable {digest : String → String}

/-- An accepted chunk has a block, and the identity of its description. -/
theorem ChunkInputs.of_derive_eq_ok {x : ChunkInputs} {id : String}
    (h : x.derive digest = .ok id) :
    x.sourceBlockIds ≠ [] ∧ id = x.describe.identity digest "sha256-v1" := by
  rw [ChunkInputs.derive, deriveChunkId] at h
  split at h
  · cases h
  · rename_i haccept
    rw [not_or, not_or, not_or] at haccept
    exact ⟨haccept.2.2.1, (Except.ok.inj h).symm⟩

theorem ChunkInputsV2.of_derive_eq_ok {x : ChunkInputsV2} {id : String}
    (h : x.derive digest = .ok id) :
    x.sourceBlockIds ≠ [] ∧ id = x.describe.identity digest "sha256-v2" := by
  rw [ChunkInputsV2.derive, deriveChunkIdV2] at h
  split at h
  · cases h
  · rename_i haccept
    rw [not_or, not_or] at haccept
    exact ⟨haccept.2.2, (Except.ok.inj h).symm⟩

/-! ## Identities -/

/-- The digests of the texts, cut to 32 digits, tell the texts apart. -/
def TellsApart (digest : String → String) (texts : List String) : Prop :=
  ∀ s ∈ texts, ∀ t ∈ texts,
    Agent.takeText 32 (digest s) = Agent.takeText 32 (digest t) → s = t

/-- The texts that are hashed for two descriptions. -/
def hashed (digest : String → String) (algorithm : String) (d d' : Description) : List String :=
  [d.content, d'.content, d.preimage digest algorithm, d'.preimage digest algorithm]

variable {algorithm : String} {d d' : Description}

/-- The pieces of the hashed text. -/
theorem Description.splitOn_preimage (hhex : ∀ s, '\x1f' ∉ (digest s).toList)
    (halgorithm : '\x1f' ∉ algorithm.toList) (d : Description) :
    (d.preimage digest algorithm).toList.splitOn '\x1f' =
      algorithm.toList :: d.pieces ++ [(digest d.content).toList] := by
  have hsep : "\x1f".toList = ['\x1f'] := rfl
  rw [Description.preimage, String.toList_intercalate, hsep,
    Text.splitOn_intercalate_eq_flatMap (by simp), List.map_append, List.map_cons,
    List.flatMap_append, List.flatMap_cons, List.splitOn_eq_singleton halgorithm,
    List.map_singleton, List.flatMap_singleton, List.splitOn_eq_singleton (hhex _)]
  rfl

/-- The hashed texts are equal exactly when the pieces and the digests of the contents are. -/
theorem Description.preimage_eq_iff (hhex : ∀ s, '\x1f' ∉ (digest s).toList)
    (halgorithm : '\x1f' ∉ algorithm.toList) :
    d.preimage digest algorithm = d'.preimage digest algorithm ↔
      d.pieces = d'.pieces ∧ digest d.content = digest d'.content := by
  constructor
  · intro heq
    have hsplit := congrArg (fun s : String => s.toList.splitOn '\x1f') heq
    rw [splitOn_preimage hhex halgorithm, splitOn_preimage hhex halgorithm] at hsplit
    obtain ⟨hfront, hlast⟩ := List.append_inj' hsplit rfl
    exact ⟨(List.cons.inj hfront).2, String.toList_inj.1 (List.cons.inj hlast).1⟩
  · rintro ⟨hpieces, hdigest⟩
    have hsplit : (d.preimage digest algorithm).toList.splitOn '\x1f' =
        (d'.preimage digest algorithm).toList.splitOn '\x1f' := by
      rw [splitOn_preimage hhex halgorithm, splitOn_preimage hhex halgorithm, hpieces, hdigest]
    have hjoined := congrArg (List.intercalate ['\x1f']) hsplit
    rw [List.intercalate_splitOn, List.intercalate_splitOn] at hjoined
    exact String.toList_inj.1 hjoined

/-- Two identities are equal exactly when the contents and the pieces are. -/
theorem Description.identity_eq_iff (hhex : ∀ s, '\x1f' ∉ (digest s).toList)
    (halgorithm : '\x1f' ∉ algorithm.toList)
    (happart : TellsApart digest (hashed digest algorithm d d')) :
    d.identity digest algorithm = d'.identity digest algorithm ↔
      d.content = d'.content ∧ d.pieces = d'.pieces := by
  constructor
  · intro heq
    have hpreimage : d.preimage digest algorithm = d'.preimage digest algorithm :=
      happart _ (by simp [hashed]) _ (by simp [hashed]) ((String.append_right_inj "chk_").1 heq)
    obtain ⟨hpieces, hdigest⟩ := (preimage_eq_iff hhex halgorithm).1 hpreimage
    exact ⟨happart _ (by simp [hashed]) _ (by simp [hashed]) (by rw [hdigest]), hpieces⟩
  · rintro ⟨hcontent, hpieces⟩
    have hpreimage := (preimage_eq_iff hhex halgorithm).2 ⟨hpieces, by rw [hcontent]⟩
    rw [identity, identity, hpreimage]

end Digest

/-! ## Plain descriptions -/

section Plain

variable {d d' : Description}

/-- The decimal digits of a number determine it. -/
theorem eq_of_toString_eq {m n : ℕ} (h : toString m = toString n) : m = n := by
  have hdigits := congrArg (fun s : String => Nat.ofDigitChars 10 s.toList 0) h
  simpa only [Nat.toString_eq_repr, Nat.toList_repr, Nat.ofDigitChars_ten_toDigits] using hdigits

/-- The decimal digits of a number have no separator. -/
theorem not_mem_toList_toString {c : Char} (hc : c.isDigit = false) (n : ℕ) :
    c ∉ (toString n).toList := by
  rw [Nat.toString_eq_repr, Nat.toList_repr]
  intro hmem
  rw [Nat.isDigit_of_mem_toDigits (by decide) (by decide) hmem] at hc
  cases hc

/-- Plain texts are their own pieces. -/
theorem Description.Plain.pieces_eq (h : d.Plain) : d.pieces = d.middle.map String.toList := by
  refine Text.flatMap_splitOn_of_not_mem fun part hpart => ?_
  obtain ⟨text, htext, rfl⟩ := List.mem_map.1 hpart
  simp only [Description.middle, List.mem_append, List.mem_cons, List.not_mem_nil, or_false]
    at htext
  rcases htext with hscope | rfl | rfl
  · exact h.1 text (List.mem_append_left _ hscope)
  · exact not_mem_toList_toString (by decide) d.sequence
  · rw [String.toList_intercalate]
    refine Text.not_mem_intercalate (by decide) fun part hpart => ?_
    obtain ⟨id, hid, rfl⟩ := List.mem_map.1 hpart
    exact h.1 id (List.mem_append_right _ hid)

/-- Block ids without a comma can be read back. -/
theorem sourceBlockIds_eq {ids ids' : List String} (hne : ids ≠ []) (hne' : ids' ≠ [])
    (h : ∀ id ∈ ids, ',' ∉ id.toList) (h' : ∀ id ∈ ids', ',' ∉ id.toList)
    (heq : ",".intercalate ids = ",".intercalate ids') : ids = ids' := by
  have hlists := congrArg String.toList heq
  have hsep : ",".toList = [','] := rfl
  rw [String.toList_intercalate, String.toList_intercalate, hsep,
    Text.intercalate_eq_iff (by simpa using hne) (by simpa using hne'),
    Text.flatMap_splitOn_of_not_mem (by simpa using h),
    Text.flatMap_splitOn_of_not_mem (by simpa using h')] at hlists
  exact List.map_injective_iff.2 (fun s t hst => String.toList_inj.1 hst) hlists

/-- Plain descriptions with the same pieces and the same content are the same. -/
theorem Description.Plain.eq_of_pieces_eq (h : d.Plain) (h' : d'.Plain)
    (hne : d.sourceBlockIds ≠ []) (hne' : d'.sourceBlockIds ≠ [])
    (hcontent : d.content = d'.content) (hpieces : d.pieces = d'.pieces) : d = d' := by
  rw [h.pieces_eq, h'.pieces_eq] at hpieces
  have hmiddle : d.middle = d'.middle :=
    List.map_injective_iff.2 (fun s t hst => String.toList_inj.1 hst) hpieces
  obtain ⟨hscope, hrest⟩ := List.append_inj' hmiddle rfl
  obtain ⟨hsequence, hjoined⟩ := List.cons.inj hrest
  have hids := sourceBlockIds_eq hne hne' h.2 h'.2 (List.cons.inj hjoined).1
  obtain ⟨scope, sequence, sourceBlockIds, content⟩ := d
  obtain ⟨scope', sequence', sourceBlockIds', content'⟩ := d'
  simp only [Description.mk.injEq]
  exact ⟨hscope, eq_of_toString_eq hsequence, hids, hcontent⟩

end Plain

/-! ## Both functions -/

/-- Equal identities mean equal descriptions, unless two descriptions with one content have the
same pieces.  Of plain descriptions the pieces are never the same. -/
def Told (d d' : Description) (id id' : String) : Prop :=
  ((id = id' → d = d') ↔ d = d' ∨ d.content ≠ d'.content ∨ d.pieces ≠ d'.pieces) ∧
    (d.Plain → d'.Plain → id = id' → d = d')

theorem told {digest : String → String} {algorithm : String} {d d' : Description}
    (hhex : ∀ s, '\x1f' ∉ (digest s).toList) (halgorithm : '\x1f' ∉ algorithm.toList)
    (hne : d.sourceBlockIds ≠ []) (hne' : d'.sourceBlockIds ≠ [])
    (happart : TellsApart digest (hashed digest algorithm d d')) :
    Told d d' (d.identity digest algorithm) (d'.identity digest algorithm) := by
  have hiff := Description.identity_eq_iff hhex halgorithm happart
  refine ⟨⟨fun himp => ?_, fun hor heq => ?_⟩, fun hplain hplain' heq => ?_⟩
  · by_cases hsame : d.content = d'.content ∧ d.pieces = d'.pieces
    · exact .inl (himp (hiff.2 hsame))
    · exact .inr (not_and_or.1 hsame)
  · obtain ⟨hcontent, hpieces⟩ := hiff.1 heq
    rcases hor with hd | hne | hne
    · exact hd
    · exact absurd hcontent hne
    · exact absurd hpieces hne
  · obtain ⟨hcontent, hpieces⟩ := hiff.1 heq
    exact hplain.eq_of_pieces_eq hplain' hne hne' hcontent hpieces

theorem chunk_identities (digest : String → String) (hhex : ∀ s, '\x1f' ∉ (digest s).toList) :
    (∀ (x y : ChunkInputs) (id id' : String), x.derive digest = .ok id → y.derive digest = .ok id' →
      TellsApart digest (hashed digest "sha256-v1" x.describe y.describe) →
        Told x.describe y.describe id id') ∧
      ∀ (x y : ChunkInputsV2) (id id' : String), x.derive digest = .ok id →
        y.derive digest = .ok id' →
        TellsApart digest (hashed digest "sha256-v2" x.describe y.describe) →
          Told x.describe y.describe id id' := by
  refine ⟨fun x y id id' hx hy happart => ?_, fun x y id id' hx hy happart => ?_⟩
  · obtain ⟨hne, rfl⟩ := ChunkInputs.of_derive_eq_ok hx
    obtain ⟨hne', rfl⟩ := ChunkInputs.of_derive_eq_ok hy
    exact told hhex (by decide) hne hne' happart
  · obtain ⟨hne, rfl⟩ := ChunkInputsV2.of_derive_eq_ok hx
    obtain ⟨hne', rfl⟩ := ChunkInputsV2.of_derive_eq_ok hy
    exact told hhex (by decide) hne hne' happart

/-! ## A comma in a block id -/

namespace Sample

/-- SHA-256 on the texts that are hashed below. -/
def sha256 (s : String) : String :=
  if s = "text" then "982d9e3eb996f559e633f4d194def3761d909f5a3b647d1a851fead67c32c9d1"
  else if s = "sha256-v1\x1facme\x1fv1\x1f0\x1fa\x1f" ++
      "982d9e3eb996f559e633f4d194def3761d909f5a3b647d1a851fead67c32c9d1" then
    "736f5bc8ab755ef39c12e624921d51627ff6a3e9927f5e1e61856ec3ae19cab3"
  else if s = "sha256-v1\x1facme\x1fv1\x1f0\x1fa,b\x1f" ++
      "982d9e3eb996f559e633f4d194def3761d909f5a3b647d1a851fead67c32c9d1" then
    "10160a1f5f741cdb9d229a7ca2fc916e1cb3b2a6f0cc6ebd3dade800e50d8858"
  else "e3b0c44298fc1c149afbf4c8996fb92427ae41e4649b934ca495991b7852b855"

/-- The first chunk of a document, made of some blocks. -/
def chunk (sourceBlockIds : List String) : ChunkInputs where
  tenantId := "acme"
  documentVersionId := "v1"
  sequence := 0
  sourceBlockIds := sourceBlockIds
  content := "text".toList

/-- A chunk of the blocks `a` and `b` and a chunk of the block `a,b` have one identity. -/
theorem chunks_collide :
    (chunk ["a", "b"]).describe ≠ (chunk ["a,b"]).describe ∧
      ∃ id, (chunk ["a", "b"]).derive sha256 = .ok id ∧ (chunk ["a,b"]).derive sha256 = .ok id :=
  ⟨by decide, (chunk ["a,b"]).describe.identity sha256 "sha256-v1", rfl, rfl⟩

theorem chunks_told : Told (chunk ["a"]).describe (chunk ["a,b"]).describe
    "chk_736f5bc8ab755ef39c12e624921d5162" "chk_10160a1f5f741cdb9d229a7ca2fc916e" := by
  have hhex : ∀ s, '\x1f' ∉ (sha256 s).toList := by
    intro s
    unfold sha256
    split_ifs <;> decide
  have happart : TellsApart sha256
      (hashed sha256 "sha256-v1" (chunk ["a"]).describe (chunk ["a,b"]).describe) := by
    unfold TellsApart
    decide +kernel
  exact (chunk_identities sha256 hhex).1 (chunk ["a"]) (chunk ["a,b"]) _ _ (by decide) (by decide)
    happart

end Sample

end Chunking
end Knowledge
end RagflowAgent
