/-!
The order of texts: by the code points of their first different characters, and a text before
its continuations.
-/

set_option autoImplicit false

namespace FileSpec.Text

def comesBefore (first second : List Char) : Bool :=
  first.lex second fun one other => one.toNat < other.toNat

def sortTexts (texts : List (List Char)) : List (List Char) :=
  texts.mergeSort fun first second => !comesBefore second first

end FileSpec.Text
