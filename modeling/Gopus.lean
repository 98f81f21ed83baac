import Gopus.Neon
import Gopus.Memory
import Gopus.InPlace
import Gopus.Imdct.Prerotate
import Gopus.Imdct.Postrotate
import Gopus.Kiss.Cpx
import Gopus.Kiss.Dft
import Gopus.Kiss.Bfly3
import Gopus.Kiss.Bfly4M1
import Gopus.Kiss.Bfly5
import Gopus.Kiss.Bfly4Mx
import Gopus.Harness.Wire
import Gopus.Harness.AppendFloats
import Gopus.Harness.Loop
import Gopus.Harness.Single
import Gopus.Harness.Multistream
