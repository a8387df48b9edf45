/-
Enhancing compiled classes, bytes to bytes.
-/

import JavaClass.ClassFile.Encoding
import JavaClass.Enhancement.Enhancer

namespace JavaClass.Enhancement

/-- The class with a plan carried out. -/
def enhanceClass (reporting : Reporting) (plan : Plan) (file : ClassFile) :
    Except Error ClassFile :=
  match Enhancer.apply plan (Enhancer.ofClass reporting [] file) with
  | (.error error, _) => .error error
  | (.ok _, enhancer) => .ok enhancer.file

/-- The bytes of a compiled class with a plan carried out. -/
def enhance (reporting : Reporting) (plan : Plan) (bytes : Bytes) : Except Error Bytes := do
  let file ← ClassFile.read bytes
  return (← enhanceClass reporting plan file).write

/-- The bytes of a compiled class with the plan carried out that a model has for it. Without one
they are what they were. -/
def enhanceWith (reporting : Reporting) (model : Model) (bytes : Bytes) : Except Error Bytes := do
  let file ← ClassFile.read bytes
  match model (← file.name) with
  | none => return bytes
  | some plan => return (← enhanceClass reporting plan file).write

end JavaClass.Enhancement
