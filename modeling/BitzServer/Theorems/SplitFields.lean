import BitzServer.Icap.Request

/-!
# The fields `split` returns

`split` starts its search at `size_t( -1 ) + 1` and cuts with a length that wraps around at the last field. Every `substr` of it is in
range, and the fields are the text between the delimiters: nothing is lost, nothing is added. The parsers count the fields, so what
they accept is told by the number of delimiters.
-/

namespace BitzServer

namespace SplitAux

/-- `split` at one delimiter is the cut at that character. -/
theorem split_singleton (str : Bytes) (sep : Byte) : split str [sep] = .ok (str.splitOn sep) := by
  have hone : (fun c => [sep].contains c) = (· == sep) := by
    funext c
    simp [beq_eq_decide]
  rw [split_eq, hone, List.splitOn_eq_splitOnP]

theorem length_splitOn (str : Bytes) (sep : Byte) : (str.splitOn sep).length = str.count sep + 1 := by
  rw [List.splitOn_eq_splitOnP, Fields.length_splitOnP]
  rfl

/-- A text with one separator is its two pieces with the separator between them. -/
theorem splitOn_of_count_one {str : Bytes} {sep : Byte} (h : str.count sep = 1) :
    ∃ a b, str.splitOn sep = [a, b] ∧ str = a ++ [sep] ++ b := by
  have hlen := length_splitOn str sep
  rw [h] at hlen
  obtain ⟨a, b, hab⟩ := List.length_eq_two.mp hlen
  have hjoin : [sep].intercalate (str.splitOn sep) = str := List.intercalate_splitOn sep
  rw [hab] at hjoin
  exact ⟨a, b, hab, by simpa using hjoin.symm⟩

/-- A text with two separators is its three pieces with the separators between them. -/
theorem splitOn_of_count_two {str : Bytes} {sep : Byte} (h : str.count sep = 2) :
    ∃ a b c, str.splitOn sep = [a, b, c] ∧ str = a ++ [sep] ++ b ++ [sep] ++ c := by
  have hlen := length_splitOn str sep
  rw [h] at hlen
  obtain ⟨a, b, c, habc⟩ := List.length_eq_three.mp hlen
  have hjoin : [sep].intercalate (str.splitOn sep) = str := List.intercalate_splitOn sep
  rw [habc] at hjoin
  exact ⟨a, b, c, habc, by simpa using hjoin.symm⟩

end SplitAux

open SplitAux

/-- `split` returns, on the exact numbers and on the `size_t` variables of the source. No field has a delimiter in it, there is one
more field than there are delimiters in the string, and the fields with these delimiters between them are the string. -/
theorem split_exact (str delimiter : Bytes) : ∃ fields, split str delimiter = .ok fields ∧
    (str.length < npos.toNat → splitSizeT str delimiter = .ok fields) ∧
    (∀ field ∈ fields, ∀ c ∈ field, c ∉ delimiter) ∧
    fields.length = str.countP (· ∈ delimiter) + 1 ∧
    Fields.interleave fields (str.filter (· ∈ delimiter)) = str ∧
    ∀ sep, delimiter = [sep] → [sep].intercalate fields = str := by
  have hmem : (fun c => delimiter.contains c) = fun c => decide (c ∈ delimiter) := by
    funext c
    rw [List.contains_eq_mem]
  have hsplit := split_eq str delimiter
  rw [hmem] at hsplit
  refine ⟨_, hsplit, fun hsize => ?_, fun field hfield c hc => ?_, ?_, ?_, fun sep hsep => ?_⟩
  · rw [splitSizeT_eq delimiter hsize, hsplit]
  · simpa using Fields.not_of_mem_splitOnP _ str field hfield c hc
  · exact Fields.length_splitOnP _ str
  · exact List.splitOnP_spec str
  · subst hsep
    obtain h := hsplit.symm.trans (split_singleton str sep)
    rw [Except.ok.inj h]
    exact List.intercalate_splitOn sep

/-- A request line gives a method, a URI and a protocol if it has two blanks between its ends, and is ignored if it does not. -/
theorem readRequestLine_exact (request : RequestLine) (requestData : Bytes) :
    ((trim requestData).count 32 = 2 → ∃ line, RequestHeader.readRequestLine request requestData = .ok line ∧
      trim requestData = line.method ++ bytes " " ++ line.uri ++ bytes " " ++ line.protocol) ∧
    ((trim requestData).count 32 ≠ 2 → RequestHeader.readRequestLine request requestData = .ok request) := by
  have hblank : bytes " " = [32] := rfl
  have hsplit := split_singleton (trim requestData) 32
  rw [RequestHeader.readRequestLine, hblank, hsplit, RequestAux.ok_bind]
  refine ⟨fun h => ?_, fun h => ?_⟩
  · obtain ⟨method, uri, protocol, hfields, hjoin⟩ := splitOn_of_count_two h
    rw [hfields]
    exact ⟨{ method, uri, protocol }, rfl, hjoin⟩
  · have hlen := length_splitOn (trim requestData) 32
    rw [if_neg (by omega)]
    rfl

/-- A header line is attached, name and value, if it has one colon, and is ignored if it does not. -/
theorem readHeaderLine_exact (h : Header) (line : Bytes) :
    (line.count 58 = 1 → ∃ key value, RequestHeader.readHeaderLine h line = h.attach key value ∧ line = key ++ bytes ":" ++ value) ∧
    (line.count 58 ≠ 1 → RequestHeader.readHeaderLine h line = .ok h) := by
  have hcolon : bytes ":" = [58] := rfl
  rw [RequestHeader.readHeaderLine, hcolon, split_singleton line 58, RequestAux.ok_bind]
  refine ⟨fun hc => ?_, fun hc => ?_⟩
  · obtain ⟨key, value, hfields, hjoin⟩ := splitOn_of_count_one hc
    rw [hfields]
    exact ⟨key, value, rfl, hjoin⟩
  · have hlen := length_splitOn line 58
    rw [if_neg (by omega)]
    rfl

end BitzServer
