import ViewPress.Proofs.Codec
import ViewPress.Proofs.Compiling

/-!
# Artifacts that load

A compilation hands out a module and its bytes. Whoever loads the bytes gets the
module back if and only if the payload keeps to the nesting limit of the reader.
Each branch and each loop of a template takes three levels, and a text at the
bottom is the fifth without them, so the limit of 127 is passed by 41 blocks inside
one another. Nothing on the way to the artifact asks how deep a template is.
-/

namespace ViewPress

/-- The bytes of a compilation are read back to its module if the module's payload is not
nested too deep, and to no module otherwise. -/
theorem decode_binary_of_compileUnits {name : String} {units : List GeneratedUnit}
    {references : List (Except Diagnostic Module)} {compiled : Compiled}
    (h : compileUnits name units references = .ok compiled) :
    Module.decode compiled.binary =
      if (Text.utf8 compiled.module.payload).length < 2 ^ 64 then
        if compiled.module.toJson.nesting ≤ Json.nestingLimit then .ok compiled.module
        else .error .malformed
      else
        .error (.truncated
          (min (Module.headerLength + (Text.utf8 compiled.module.payload).length % 2 ^ 64)
            Number.maxUnsigned)
          (Module.headerLength + (Text.utf8 compiled.module.payload).length)) := by
  obtain ⟨c, -, hyields⟩ := exists_yields_of_compileUnits_eq h
  rw [hyields.binary]
  exact Module.decodeWith_encodeWith Digest.blake3 compiled.module

/-- The code of a class that branches `depth` times, each time inside the branch before. -/
def nestedBranches (depth : Nat) : List Char :=
  "class A\x7brender\x7bfor a in model\x7b".toList
    ++ (List.replicate depth "if a\x7b".toList).flatten ++ "write \"\";".toList
    ++ List.replicate (depth + 3) '}'

/-- One branch inside a loop. -/
theorem decode_binary_of_compileUnits_branch :
    ∃ compiled,
      compileUnits "m"
          [{ path := "a", code := String.ofList (nestedBranches 1), diagnostics := [] }] []
        = .ok compiled ∧
      Module.decode compiled.binary =
        if (Text.utf8 compiled.module.payload).length < 2 ^ 64 then
          if compiled.module.toJson.nesting ≤ Json.nestingLimit then .ok compiled.module
          else .error .malformed
        else
          .error (.truncated
            (min (Module.headerLength + (Text.utf8 compiled.module.payload).length % 2 ^ 64)
              Number.maxUnsigned)
            (Module.headerLength + (Text.utf8 compiled.module.payload).length)) := by
  obtain ⟨-, compiled, -, hcompile, -⟩ := exists_compiled_of_chars [] "m" "a"
    (nestedBranches 1) (fun _ compiled => compiled.module.toJson.nesting) 11
    (by decide +kernel)
  exact ⟨compiled, hcompile, decode_binary_of_compileUnits hcompile⟩

/-- With 40 branches inside the loop the compilation succeeds and its bytes are no module. -/
theorem decode_binary_ne_module :
    ∃ compiled,
      compileUnits "m"
          [{ path := "a", code := String.ofList (nestedBranches 40), diagnostics := [] }] []
        = .ok compiled ∧
      Module.decode compiled.binary ≠ .ok compiled.module := by
  obtain ⟨-, compiled, -, hcompile, hdeep⟩ := exists_compiled_of_chars [] "m" "a"
    (nestedBranches 40) (fun _ compiled => compiled.module.toJson.nesting) 128
    (by decide +kernel)
  obtain ⟨c, -, hyields⟩ := exists_yields_of_compileUnits_eq hcompile
  refine ⟨compiled, hcompile, ?_⟩
  rw [hyields.binary, Module.encode, Module.decode, Module.decodeWith_encodeWith, hdeep]
  split
  · exact fun h => by cases h
  · exact fun h => by cases h

end ViewPress
