import Astock.Spec.Model

/-!
# Tool-call arguments from fragments

* `Follows`: each fragment is new after what came before it: it does not start with it, and it is
  not its end.
* `merged_eq_iff`: **merging loses a fragment exactly when the fragments do not follow**: every
  fragment adds at most its length, and one that is swallowed or dropped adds less.
* `merged_prefixes`: updates that repeat what is there are merged without loss.
* `assembled_iff`: what both say of the calls of a stream.
-/

namespace Astock

/-- One chunk of a call: the fragments of its id and name, and that of its arguments. -/
structure ToolFragment where
  id : Option String := none
  name : Option String := none
  arguments : String

/-- The partial call of a stream of chunks. -/
def assembled (chunks : List ToolFragment) : PartialToolCall :=
  chunks.foldl (fun p chunk => p.merge chunk.id chunk.name (some chunk.arguments)) {}

/-- The arguments after one fragment more. -/
abbrev merged (target fragment : String) : String := mergeFragment target (some fragment)

/-- Each fragment is new after `before` and the fragments between. -/
def Follows (before : String) : List String → Prop
  | [] => True
  | fragment :: rest => Text.startsWith fragment before = false ∧
      Text.endsWith before fragment = false ∧ Follows (before ++ fragment) rest

/-- The first fragment starts the call, the others follow. -/
def Growing : List String → Prop
  | [] => True
  | fragment :: rest => Follows fragment rest

/-! ## One fragment -/

variable {target fragment : String}

theorem nonEmpty_some (hne : fragment ≠ "") : nonEmpty (some fragment) = some fragment := by
  simp [nonEmpty, Option.filter, hne]

theorem merged_of_startsWith (hne : fragment ≠ "")
    (h : target = "" ∨ Text.startsWith fragment target = true) : merged target fragment = fragment := by
  unfold merged mergeFragment
  rw [nonEmpty_some hne]
  exact if_pos h

theorem merged_of_endsWith (hne : fragment ≠ "")
    (hstart : ¬ (target = "" ∨ Text.startsWith fragment target = true))
    (h : Text.endsWith target fragment = true) : merged target fragment = target := by
  unfold merged mergeFragment
  rw [nonEmpty_some hne]
  exact (if_neg hstart).trans (if_pos h)

theorem merged_of_new (hne : fragment ≠ "")
    (hstart : ¬ (target = "" ∨ Text.startsWith fragment target = true))
    (hend : ¬ Text.endsWith target fragment = true) :
    merged target fragment = target ++ fragment := by
  unfold merged mergeFragment
  rw [nonEmpty_some hne]
  exact (if_neg hstart).trans (if_neg hend)

theorem length_pos {s : String} (hne : s ≠ "") : 0 < s.length :=
  Nat.pos_of_ne_zero fun h => hne (String.length_eq_zero_iff.1 h)

/-- A fragment adds at most its length. -/
theorem length_merged_le (hne : fragment ≠ "") :
    (merged target fragment).length ≤ target.length + fragment.length := by
  by_cases hstart : target = "" ∨ Text.startsWith fragment target = true
  · rw [merged_of_startsWith hne hstart]
    omega
  · by_cases hend : Text.endsWith target fragment = true
    · rw [merged_of_endsWith hne hstart hend]
      omega
    · rw [merged_of_new hne hstart hend, String.length_append]

/-! ## All fragments -/

theorem length_foldl_merged_le (fragments : List String) (hne : ∀ f ∈ fragments, f ≠ "")
    (target : String) :
    (fragments.foldl merged target).length ≤ target.length + (String.join fragments).length := by
  induction fragments generalizing target with
  | nil => simp
  | cons fragment rest ih =>
    obtain ⟨hfragment, hrest⟩ := List.forall_mem_cons.1 hne
    have hstep : (merged target fragment).length ≤ target.length + fragment.length :=
      length_merged_le hfragment
    have hle := ih hrest (merged target fragment)
    rw [List.foldl_cons, String.join_cons, String.length_append]
    omega

/-- **Merging loses nothing exactly when every fragment is new.** A fragment that is not adds less
than its length, which the later ones cannot make up for. -/
theorem foldl_merged_eq_iff (fragments : List String) (hne : ∀ f ∈ fragments, f ≠ "")
    {target : String} (htarget : target ≠ "") :
    fragments.foldl merged target = target ++ String.join fragments ↔ Follows target fragments := by
  induction fragments generalizing target with
  | nil => simp [Follows]
  | cons fragment rest ih =>
    obtain ⟨hfragment, hrest⟩ := List.forall_mem_cons.1 hne
    have hle := length_foldl_merged_le rest hrest
    rw [List.foldl_cons, String.join_cons, Follows]
    by_cases hstart : Text.startsWith fragment target = true
    · rw [merged_of_startsWith hfragment (.inr hstart)]
      refine ⟨fun heq => absurd (congrArg String.length heq) ?_, fun h => ?_⟩
      · have hshort := hle fragment
        have hpos := length_pos htarget
        simp only [String.length_append]
        omega
      · rw [hstart] at h
        exact nomatch h.1
    · have hnot : ¬ (target = "" ∨ Text.startsWith fragment target = true) :=
        not_or.2 ⟨htarget, hstart⟩
      by_cases hend : Text.endsWith target fragment = true
      · rw [merged_of_endsWith hfragment hnot hend]
        refine ⟨fun heq => absurd (congrArg String.length heq) ?_, fun h => ?_⟩
        · have hshort := hle target
          have hpos := length_pos hfragment
          simp only [String.length_append]
          omega
        · rw [hend] at h
          exact nomatch h.2.1
      · have hnew : target ++ fragment ≠ "" := fun h =>
          htarget (String.append_eq_empty_iff.1 h).1
        rw [merged_of_new hfragment hnot hend, ← String.append_assoc, ih hrest hnew]
        simp [hstart, hend]

theorem merged_eq_iff (fragments : List String) (hne : ∀ f ∈ fragments, f ≠ "") :
    fragments.foldl merged "" = String.join fragments ↔ Growing fragments := by
  cases fragments with
  | nil => simp [Growing]
  | cons fragment rest =>
    obtain ⟨hfragment, hrest⟩ := List.forall_mem_cons.1 hne
    rw [List.foldl_cons, merged_of_startsWith hfragment (.inl rfl), String.join_cons]
    exact foldl_merged_eq_iff rest hrest hfragment

/-- **Updates that each start with the one before** are merged into the last. -/
theorem merged_prefixes (fragments : List String) (hne : ∀ f ∈ fragments, f ≠ "") (target : String)
    (hchain : (target :: fragments).IsChain fun a b => a.toList <+: b.toList) :
    fragments.foldl merged target = (fragments.getLast?).getD target := by
  induction fragments generalizing target with
  | nil => rfl
  | cons fragment rest ih =>
    obtain ⟨hfragment, hrest⟩ := List.forall_mem_cons.1 hne
    obtain ⟨hle, hchain⟩ := List.isChain_cons_cons.1 hchain
    have hstart : Text.startsWith fragment target = true := List.isPrefixOf_iff_prefix.2 hle
    rw [List.foldl_cons, merged_of_startsWith hfragment (.inr hstart), ih hrest fragment hchain,
      List.getLast?_cons]
    rfl

/-! ## The calls of a stream -/

/-- The arguments are merged apart from id and name, and their characters are counted. -/
theorem foldl_merge_arguments (chunks : List ToolFragment) (p : PartialToolCall)
    (hcount : p.argumentChars = p.arguments.length) :
    let q := chunks.foldl (fun p chunk => p.merge chunk.id chunk.name (some chunk.arguments)) p
    q.arguments = (chunks.map ToolFragment.arguments).foldl merged p.arguments ∧
      q.argumentChars = q.arguments.length := by
  induction chunks generalizing p with
  | nil => exact ⟨rfl, hcount⟩
  | cons chunk rest ih =>
    have hstep : (mergeCountedFragment p.arguments p.argumentChars (some chunk.arguments)).1 =
        merged p.arguments chunk.arguments ∧
      (mergeCountedFragment p.arguments p.argumentChars (some chunk.arguments)).2 =
        (mergeCountedFragment p.arguments p.argumentChars (some chunk.arguments)).1.length := by
      unfold mergeCountedFragment merged mergeFragment
      cases nonEmpty (some chunk.arguments) with
      | none => exact ⟨rfl, hcount⟩
      | some fragment =>
        dsimp only
        by_cases hstart : p.arguments = "" ∨ Text.startsWith fragment p.arguments = true
        · rw [if_pos hstart, if_pos hstart]
          exact ⟨rfl, rfl⟩
        · rw [if_neg hstart, if_neg hstart]
          by_cases hend : Text.endsWith p.arguments fragment = true
          · rw [if_pos hend, if_pos hend]
            exact ⟨rfl, hcount⟩
          · rw [if_neg hend, if_neg hend]
            exact ⟨rfl, by rw [hcount, String.length_append]⟩
    have hrest := ih (p.merge chunk.id chunk.name (some chunk.arguments)) hstep.2
    rw [List.foldl_cons, List.map_cons, List.foldl_cons, ← hstep.1]
    exact hrest

/-- **Arguments delivered piece by piece are assembled exactly when every piece is new after those
before it; arguments delivered as growing prefixes always are.** -/
theorem assembled_iff (chunks : List ToolFragment) (hne : ∀ chunk ∈ chunks, chunk.arguments ≠ "") :
    ((assembled chunks).arguments = String.join (chunks.map ToolFragment.arguments) ∧
        (assembled chunks).argumentChars =
          (String.join (chunks.map ToolFragment.arguments)).length ↔
      Growing (chunks.map ToolFragment.arguments)) ∧
    ∀ s, (chunks.map ToolFragment.arguments).getLast? = some s →
      (chunks.map ToolFragment.arguments).IsChain (fun a b => a.toList <+: b.toList) →
      (assembled chunks).arguments = s ∧ (assembled chunks).argumentChars = s.length := by
  obtain ⟨harguments, hcount⟩ := foldl_merge_arguments chunks {} rfl
  have hfragments : ∀ f ∈ chunks.map ToolFragment.arguments, f ≠ "" := by
    intro f hf
    obtain ⟨chunk, hchunk, rfl⟩ := List.mem_map.1 hf
    exact hne chunk hchunk
  unfold assembled
  rw [hcount, harguments]
  constructor
  · rw [← merged_eq_iff _ hfragments]
    exact ⟨And.left, fun h => ⟨h, congrArg String.length h⟩⟩
  · intro s hlast hchain
    have hempty : ("" :: chunks.map ToolFragment.arguments).IsChain
        fun a b => a.toList <+: b.toList := by
      cases hmap : chunks.map ToolFragment.arguments with
      | nil => exact .singleton _
      | cons f rest =>
        rw [hmap] at hchain
        exact List.isChain_cons_cons.2 ⟨List.nil_prefix, hchain⟩
    have hmerged := merged_prefixes _ hfragments "" hempty
    rw [hlast] at hmerged
    exact ⟨hmerged, congrArg String.length hmerged⟩

def symbolChunks : List ToolFragment := [
  { id := some "call-1", name := some "get_quote", arguments := "\x7b\"sym" },
  { arguments := "bol\":\"601899\"\x7d" }]

theorem assembled_symbol :
    (assembled symbolChunks).arguments = "\x7b\"symbol\":\"601899\"\x7d" := by
  have hfresh : Growing (symbolChunks.map ToolFragment.arguments) :=
    ⟨by decide, by decide, trivial⟩
  exact ((assembled_iff symbolChunks (by decide)).1.2 hfresh).1

/-- Of the two equal digits of `11` one is dropped. -/
theorem repeatedDigit_dropped : ¬ ∀ chunks : List ToolFragment,
    (∀ chunk ∈ chunks, chunk.arguments ≠ "") →
      (assembled chunks).arguments = String.join (chunks.map ToolFragment.arguments) := by
  intro h
  have heq := h [{ arguments := "1" }, { arguments := "1" }] (by decide)
  revert heq
  decide

end Astock
