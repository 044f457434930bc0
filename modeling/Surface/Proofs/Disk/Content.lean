import Surface.Disk.Path

/-! # Texts as contents of files

A text that has been written to a file is read back from it, and takes as many bytes there as its
size says.
-/

namespace Surface.Workspace

theorem decode_encode (t : Text) : decode (encode t) = .ok t := by
  have hvalid : (encode t).IsValidUTF8 := (String.ofList t).isValidUTF8
  rw [decode, String.fromUTF8?, dif_pos hvalid]
  exact congrArg _ String.toList_ofList

theorem size_encode (t : Text) : (encode t).size = t.byteSize := by
  have hlength : (t.flatMap String.utf8EncodeChar).length = t.byteSize := by
    induction t with
    | nil => rfl
    | cons c t ih =>
      rw [List.flatMap_cons, List.length_append, ih, String.length_utf8EncodeChar,
        Text.byteSize_cons]
  rw [← hlength]
  exact List.size_toByteArray

end Surface.Workspace
