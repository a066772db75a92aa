import BearTLS.Spec.CertStore

/-! Two of the compiled-in certificates and one that is not compiled in, and what the
X.509 decoder reads out of them, for runs on fixed inputs. -/

namespace BearTLS

def WM_GTS_ROOT_R4_DER : List UInt8 := [
    0x30, 0x82, 0x02, 0x09, 0x30, 0x82, 0x01, 0x8E, 0xA0, 0x03, 0x02, 0x01,
    0x02, 0x02, 0x0D, 0x02, 0x03, 0xE5, 0xC0, 0x68, 0xEF, 0x63, 0x1A, 0x9C,
    0x72, 0x90, 0x50, 0x52, 0x30, 0x0A, 0x06, 0x08, 0x2A, 0x86, 0x48, 0xCE,
    0x3D, 0x04, 0x03, 0x03, 0x30, 0x47, 0x31, 0x0B, 0x30, 0x09, 0x06, 0x03,
    0x55, 0x04, 0x06, 0x13, 0x02, 0x55, 0x53, 0x31, 0x22, 0x30, 0x20, 0x06,
    0x03, 0x55, 0x04, 0x0A, 0x13, 0x19, 0x47, 0x6F, 0x6F, 0x67, 0x6C, 0x65,
    0x20, 0x54, 0x72, 0x75, 0x73, 0x74, 0x20, 0x53, 0x65, 0x72, 0x76, 0x69,
    0x63, 0x65, 0x73, 0x20, 0x4C, 0x4C, 0x43, 0x31, 0x14, 0x30, 0x12, 0x06,
    0x03, 0x55, 0x04, 0x03, 0x13, 0x0B, 0x47, 0x54, 0x53, 0x20, 0x52, 0x6F,
    0x6F, 0x74, 0x20, 0x52, 0x34, 0x30, 0x1E, 0x17, 0x0D, 0x31, 0x36, 0x30,
    0x36, 0x32, 0x32, 0x30, 0x30, 0x30, 0x30, 0x30, 0x30, 0x5A, 0x17, 0x0D,
    0x33, 0x36, 0x30, 0x36, 0x32, 0x32, 0x30, 0x30, 0x30, 0x30, 0x30, 0x30,
    0x5A, 0x30, 0x47, 0x31, 0x0B, 0x30, 0x09, 0x06, 0x03, 0x55, 0x04, 0x06,
    0x13, 0x02, 0x55, 0x53, 0x31, 0x22, 0x30, 0x20, 0x06, 0x03, 0x55, 0x04,
    0x0A, 0x13, 0x19, 0x47, 0x6F, 0x6F, 0x67, 0x6C, 0x65, 0x20, 0x54, 0x72,
    0x75, 0x73, 0x74, 0x20, 0x53, 0x65, 0x72, 0x76, 0x69, 0x63, 0x65, 0x73,
    0x20, 0x4C, 0x4C, 0x43, 0x31, 0x14, 0x30, 0x12, 0x06, 0x03, 0x55, 0x04,
    0x03, 0x13, 0x0B, 0x47, 0x54, 0x53, 0x20, 0x52, 0x6F, 0x6F, 0x74, 0x20,
    0x52, 0x34, 0x30, 0x76, 0x30, 0x10, 0x06, 0x07, 0x2A, 0x86, 0x48, 0xCE,
    0x3D, 0x02, 0x01, 0x06, 0x05, 0x2B, 0x81, 0x04, 0x00, 0x22, 0x03, 0x62,
    0x00, 0x04, 0xF3, 0x74, 0x73, 0xA7, 0x68, 0x8B, 0x60, 0xAE, 0x43, 0xB8,
    0x35, 0xC5, 0x81, 0x30, 0x7B, 0x4B, 0x49, 0x9D, 0xFB, 0xC1, 0x61, 0xCE,
    0xE6, 0xDE, 0x46, 0xBD, 0x6B, 0xD5, 0x61, 0x18, 0x35, 0xAE, 0x40, 0xDD,
    0x73, 0xF7, 0x89, 0x91, 0x30, 0x5A, 0xEB, 0x3C, 0xEE, 0x85, 0x7C, 0xA2,
    0x40, 0x76, 0x3B, 0xA9, 0xC6, 0xB8, 0x47, 0xD8, 0x2A, 0xE7, 0x92, 0x91,
    0x6A, 0x73, 0xE9, 0xB1, 0x72, 0x39, 0x9F, 0x29, 0x9F, 0xA2, 0x98, 0xD3,
    0x5F, 0x5E, 0x58, 0x86, 0x65, 0x0F, 0xA1, 0x84, 0x65, 0x06, 0xD1, 0xDC,
    0x8B, 0xC9, 0xC7, 0x73, 0xC8, 0x8C, 0x6A, 0x2F, 0xE5, 0xC4, 0xAB, 0xD1,
    0x1D, 0x8A, 0xA3, 0x42, 0x30, 0x40, 0x30, 0x0E, 0x06, 0x03, 0x55, 0x1D,
    0x0F, 0x01, 0x01, 0xFF, 0x04, 0x04, 0x03, 0x02, 0x01, 0x86, 0x30, 0x0F,
    0x06, 0x03, 0x55, 0x1D, 0x13, 0x01, 0x01, 0xFF, 0x04, 0x05, 0x30, 0x03,
    0x01, 0x01, 0xFF, 0x30, 0x1D, 0x06, 0x03, 0x55, 0x1D, 0x0E, 0x04, 0x16,
    0x04, 0x14, 0x80, 0x4C, 0xD6, 0xEB, 0x74, 0xFF, 0x49, 0x36, 0xA3, 0xD5,
    0xD8, 0xFC, 0xB5, 0x3E, 0xC5, 0x6A, 0xF0, 0x94, 0x1D, 0x8C, 0x30, 0x0A,
    0x06, 0x08, 0x2A, 0x86, 0x48, 0xCE, 0x3D, 0x04, 0x03, 0x03, 0x03, 0x69,
    0x00, 0x30, 0x66, 0x02, 0x31, 0x00, 0xE8, 0x40, 0xFF, 0x83, 0xDE, 0x03,
    0xF4, 0x9F, 0xAE, 0x1D, 0x7A, 0xA7, 0x2E, 0xB9, 0xAF, 0x4F, 0xF6, 0x83,
    0x1D, 0x0E, 0x2D, 0x85, 0x01, 0x1D, 0xD1, 0xD9, 0x6A, 0xEC, 0x0F, 0xC2,
    0xAF, 0xC7, 0x5E, 0x56, 0x5E, 0x5C, 0xD5, 0x1C, 0x58, 0x22, 0x28, 0x0B,
    0xF7, 0x30, 0xB6, 0x2F, 0xB1, 0x7C, 0x02, 0x31, 0x00, 0xF0, 0x61, 0x3C,
    0xA7, 0xF4, 0xA0, 0x82, 0xE3, 0x21, 0xD5, 0x84, 0x1D, 0x73, 0x86, 0x9C,
    0x2D, 0xAF, 0xCA, 0x34, 0x9B, 0xF1, 0x9F, 0xB9, 0x23, 0x36, 0xE2, 0xBC,
    0x60, 0x03, 0x9D, 0x80, 0xB3, 0x9A, 0x56, 0xC8, 0xE1, 0xE2, 0xBB, 0x14,
    0x79, 0xCA, 0xCD, 0x21, 0xD4, 0x94, 0xB5, 0x49, 0x43]

def WM_ISRG_ROOT_X2_DER : List UInt8 := [
    0x30, 0x82, 0x02, 0x1B, 0x30, 0x82, 0x01, 0xA1, 0xA0, 0x03, 0x02, 0x01,
    0x02, 0x02, 0x10, 0x41, 0xD2, 0x9D, 0xD1, 0x72, 0xEA, 0xEE, 0xA7, 0x80,
    0xC1, 0x2C, 0x6C, 0xE9, 0x2F, 0x87, 0x52, 0x30, 0x0A, 0x06, 0x08, 0x2A,
    0x86, 0x48, 0xCE, 0x3D, 0x04, 0x03, 0x03, 0x30, 0x4F, 0x31, 0x0B, 0x30,
    0x09, 0x06, 0x03, 0x55, 0x04, 0x06, 0x13, 0x02, 0x55, 0x53, 0x31, 0x29,
    0x30, 0x27, 0x06, 0x03, 0x55, 0x04, 0x0A, 0x13, 0x20, 0x49, 0x6E, 0x74,
    0x65, 0x72, 0x6E, 0x65, 0x74, 0x20, 0x53, 0x65, 0x63, 0x75, 0x72, 0x69,
    0x74, 0x79, 0x20, 0x52, 0x65, 0x73, 0x65, 0x61, 0x72, 0x63, 0x68, 0x20,
    0x47, 0x72, 0x6F, 0x75, 0x70, 0x31, 0x15, 0x30, 0x13, 0x06, 0x03, 0x55,
    0x04, 0x03, 0x13, 0x0C, 0x49, 0x53, 0x52, 0x47, 0x20, 0x52, 0x6F, 0x6F,
    0x74, 0x20, 0x58, 0x32, 0x30, 0x1E, 0x17, 0x0D, 0x32, 0x30, 0x30, 0x39,
    0x30, 0x34, 0x30, 0x30, 0x30, 0x30, 0x30, 0x30, 0x5A, 0x17, 0x0D, 0x34,
    0x30, 0x30, 0x39, 0x31, 0x37, 0x31, 0x36, 0x30, 0x30, 0x30, 0x30, 0x5A,
    0x30, 0x4F, 0x31, 0x0B, 0x30, 0x09, 0x06, 0x03, 0x55, 0x04, 0x06, 0x13,
    0x02, 0x55, 0x53, 0x31, 0x29, 0x30, 0x27, 0x06, 0x03, 0x55, 0x04, 0x0A,
    0x13, 0x20, 0x49, 0x6E, 0x74, 0x65, 0x72, 0x6E, 0x65, 0x74, 0x20, 0x53,
    0x65, 0x63, 0x75, 0x72, 0x69, 0x74, 0x79, 0x20, 0x52, 0x65, 0x73, 0x65,
    0x61, 0x72, 0x63, 0x68, 0x20, 0x47, 0x72, 0x6F, 0x75, 0x70, 0x31, 0x15,
    0x30, 0x13, 0x06, 0x03, 0x55, 0x04, 0x03, 0x13, 0x0C, 0x49, 0x53, 0x52,
    0x47, 0x20, 0x52, 0x6F, 0x6F, 0x74, 0x20, 0x58, 0x32, 0x30, 0x76, 0x30,
    0x10, 0x06, 0x07, 0x2A, 0x86, 0x48, 0xCE, 0x3D, 0x02, 0x01, 0x06, 0x05,
    0x2B, 0x81, 0x04, 0x00, 0x22, 0x03, 0x62, 0x00, 0x04, 0xCD, 0x9B, 0xD5,
    0x9F, 0x80, 0x83, 0x0A, 0xEC, 0x09, 0x4A, 0xF3, 0x16, 0x4A, 0x3E, 0x5C,
    0xCF, 0x77, 0xAC, 0xDE, 0x67, 0x05, 0x0D, 0x1D, 0x07, 0xB6, 0xDC, 0x16,
    0xFB, 0x5A, 0x8B, 0x14, 0xDB, 0xE2, 0x71, 0x60, 0xC4, 0xBA, 0x45, 0x95,
    0x11, 0x89, 0x8E, 0xEA, 0x06, 0xDF, 0xF7, 0x2A, 0x16, 0x1C, 0xA4, 0xB9,
    0xC5, 0xC5, 0x32, 0xE0, 0x03, 0xE0, 0x1E, 0x82, 0x18, 0x38, 0x8B, 0xD7,
    0x45, 0xD8, 0x0A, 0x6A, 0x6E, 0xE6, 0x00, 0x77, 0xFB, 0x02, 0x51, 0x7D,
    0x22, 0xD8, 0x0A, 0x6E, 0x9A, 0x5B, 0x77, 0xDF, 0xF0, 0xFA, 0x41, 0xEC,
    0x39, 0xDC, 0x75, 0xCA, 0x68, 0x07, 0x0C, 0x1F, 0xEA, 0xA3, 0x42, 0x30,
    0x40, 0x30, 0x0E, 0x06, 0x03, 0x55, 0x1D, 0x0F, 0x01, 0x01, 0xFF, 0x04,
    0x04, 0x03, 0x02, 0x01, 0x06, 0x30, 0x0F, 0x06, 0x03, 0x55, 0x1D, 0x13,
    0x01, 0x01, 0xFF, 0x04, 0x05, 0x30, 0x03, 0x01, 0x01, 0xFF, 0x30, 0x1D,
    0x06, 0x03, 0x55, 0x1D, 0x0E, 0x04, 0x16, 0x04, 0x14, 0x7C, 0x42, 0x96,
    0xAE, 0xDE, 0x4B, 0x48, 0x3B, 0xFA, 0x92, 0xF8, 0x9E, 0x8C, 0xCF, 0x6D,
    0x8B, 0xA9, 0x72, 0x37, 0x95, 0x30, 0x0A, 0x06, 0x08, 0x2A, 0x86, 0x48,
    0xCE, 0x3D, 0x04, 0x03, 0x03, 0x03, 0x68, 0x00, 0x30, 0x65, 0x02, 0x30,
    0x7B, 0x79, 0x4E, 0x46, 0x50, 0x84, 0xC2, 0x44, 0x87, 0x46, 0x1B, 0x45,
    0x70, 0xFF, 0x58, 0x99, 0xDE, 0xF4, 0xFD, 0xA4, 0xD2, 0x55, 0xA6, 0x20,
    0x2D, 0x74, 0xD6, 0x34, 0xBC, 0x41, 0xA3, 0x50, 0x5F, 0x01, 0x27, 0x56,
    0xB4, 0xBE, 0x27, 0x75, 0x06, 0xAF, 0x12, 0x2E, 0x75, 0x98, 0x8D, 0xFC,
    0x02, 0x31, 0x00, 0x8B, 0xF5, 0x77, 0x6C, 0xD4, 0xC8, 0x65, 0xAA, 0xE0,
    0x0B, 0x2C, 0xEE, 0x14, 0x9D, 0x27, 0x37, 0xA4, 0xF9, 0x53, 0xA5, 0x51,
    0xE4, 0x29, 0x83, 0xD7, 0xF8, 0x90, 0x31, 0x5B, 0x42, 0x9F, 0x0A, 0xF5,
    0xFE, 0xAE, 0x00, 0x68, 0xE7, 0x8C, 0x49, 0x0F, 0xB6, 0x6F, 0x5B, 0x5B,
    0x15, 0xF2, 0xE7]

/-- The certificate of `samples/cert-root-ec.pem`, which is in neither table. -/
def CERT_ROOT_EC_DER : List UInt8 := [
    0x30, 0x82, 0x01, 0x8A, 0x30, 0x82, 0x01, 0x30, 0xA0, 0x03, 0x02, 0x01,
    0x02, 0x02, 0x01, 0x09, 0x30, 0x0A, 0x06, 0x08, 0x2A, 0x86, 0x48, 0xCE,
    0x3D, 0x04, 0x03, 0x02, 0x30, 0x1C, 0x31, 0x0B, 0x30, 0x09, 0x06, 0x03,
    0x55, 0x04, 0x06, 0x13, 0x02, 0x43, 0x41, 0x31, 0x0D, 0x30, 0x0B, 0x06,
    0x03, 0x55, 0x04, 0x03, 0x13, 0x04, 0x52, 0x6F, 0x6F, 0x74, 0x30, 0x1E,
    0x17, 0x0D, 0x31, 0x30, 0x30, 0x31, 0x30, 0x31, 0x30, 0x30, 0x30, 0x30,
    0x30, 0x30, 0x5A, 0x17, 0x0D, 0x33, 0x37, 0x31, 0x32, 0x33, 0x31, 0x32,
    0x33, 0x35, 0x39, 0x35, 0x39, 0x5A, 0x30, 0x1C, 0x31, 0x0B, 0x30, 0x09,
    0x06, 0x03, 0x55, 0x04, 0x06, 0x13, 0x02, 0x43, 0x41, 0x31, 0x0D, 0x30,
    0x0B, 0x06, 0x03, 0x55, 0x04, 0x03, 0x13, 0x04, 0x52, 0x6F, 0x6F, 0x74,
    0x30, 0x59, 0x30, 0x13, 0x06, 0x07, 0x2A, 0x86, 0x48, 0xCE, 0x3D, 0x02,
    0x01, 0x06, 0x08, 0x2A, 0x86, 0x48, 0xCE, 0x3D, 0x03, 0x01, 0x07, 0x03,
    0x42, 0x00, 0x04, 0x71, 0x74, 0xBA, 0xAB, 0xB9, 0x30, 0x2E, 0x81, 0xD5,
    0xE5, 0x57, 0xF9, 0xF3, 0x20, 0x68, 0x0C, 0x9C, 0xF9, 0x64, 0xDB, 0xB4,
    0x20, 0x0D, 0x6D, 0xEA, 0x40, 0xD0, 0x4A, 0x6E, 0x42, 0xFD, 0xB6, 0x9A,
    0x68, 0x25, 0x44, 0xF6, 0xDF, 0x7B, 0xC4, 0xFC, 0xDE, 0xDD, 0x7B, 0xBB,
    0xC5, 0xDB, 0x7C, 0x76, 0x3F, 0x41, 0x66, 0x40, 0x6E, 0xDB, 0xA7, 0x87,
    0xC2, 0xE5, 0xD8, 0xC5, 0xF3, 0x7F, 0x8D, 0xA3, 0x63, 0x30, 0x61, 0x30,
    0x1F, 0x06, 0x03, 0x55, 0x1D, 0x23, 0x04, 0x18, 0x30, 0x16, 0x80, 0x14,
    0x95, 0x41, 0xB4, 0xE2, 0x67, 0xAA, 0xF1, 0x7F, 0xBC, 0x8F, 0x79, 0xF3,
    0x68, 0x14, 0x5A, 0x6B, 0x92, 0x16, 0xA2, 0x40, 0x30, 0x1D, 0x06, 0x03,
    0x55, 0x1D, 0x0E, 0x04, 0x16, 0x04, 0x14, 0x95, 0x41, 0xB4, 0xE2, 0x67,
    0xAA, 0xF1, 0x7F, 0xBC, 0x8F, 0x79, 0xF3, 0x68, 0x14, 0x5A, 0x6B, 0x92,
    0x16, 0xA2, 0x40, 0x30, 0x0E, 0x06, 0x03, 0x55, 0x1D, 0x0F, 0x01, 0x01,
    0xFF, 0x04, 0x04, 0x03, 0x02, 0x00, 0x86, 0x30, 0x0F, 0x06, 0x03, 0x55,
    0x1D, 0x13, 0x01, 0x01, 0xFF, 0x04, 0x05, 0x30, 0x03, 0x01, 0x01, 0xFF,
    0x30, 0x0A, 0x06, 0x08, 0x2A, 0x86, 0x48, 0xCE, 0x3D, 0x04, 0x03, 0x02,
    0x03, 0x48, 0x00, 0x30, 0x45, 0x02, 0x21, 0x00, 0xB3, 0xD4, 0x60, 0x88,
    0x02, 0x84, 0x6D, 0xA9, 0x4D, 0xA1, 0xC7, 0xAD, 0xA1, 0x79, 0xCE, 0xC4,
    0xFB, 0xF5, 0xF1, 0x9D, 0x41, 0x83, 0x39, 0x15, 0xA7, 0x92, 0x58, 0xA2,
    0x1A, 0xB7, 0x26, 0xC5, 0x02, 0x20, 0x34, 0xFA, 0xBD, 0x34, 0x70, 0xFB,
    0xB6, 0xCD, 0x31, 0x62, 0x34, 0xF0, 0x66, 0xC7, 0x74, 0x6C, 0xDE, 0xB6,
    0xFA, 0x26, 0x3D, 0xDE, 0x53, 0x38, 0x2C, 0x76, 0xE4, 0x35, 0x5F, 0x6A,
    0xFE, 0x00]

/-- The decoder on the first two: the subject name and a P-384 key of a CA. Anything
else is an error here. -/
def twoCertificates : X509Decoder := fun der =>
  if der = WM_GTS_ROOT_R4_DER then
    ⟨0, [(der.drop 145).take 73], some (.ec 24 ((der.drop 241).take 97)), true⟩
  else if der = WM_ISRG_ROOT_X2_DER then
    ⟨0, [(der.drop 156).take 81], some (.ec 24 ((der.drop 260).take 97)), true⟩
  else ⟨33, [], none, false⟩

def anchorR4 : AnchorView where
  dn := (WM_GTS_ROOT_R4_DER.drop 145).take 73
  flags := BR_X509_TA_CA
  key := .ec 24 ((WM_GTS_ROOT_R4_DER.drop 241).take 97)

def anchorX2 : AnchorView where
  dn := (WM_ISRG_ROOT_X2_DER.drop 156).take 81
  flags := BR_X509_TA_CA
  key := .ec 24 ((WM_ISRG_ROOT_X2_DER.drop 260).take 97)

/-- The decoder on all three; the key of the sample is on the curve P-256. -/
def withSampleRoot : X509Decoder := fun der =>
  if der = CERT_ROOT_EC_DER then
    ⟨0, [(der.drop 90).take 30], some (.ec 23 ((der.drop 146).take 65)), true⟩
  else twoCertificates der

def anchorRoot : AnchorView where
  dn := (CERT_ROOT_EC_DER.drop 90).take 30
  flags := BR_X509_TA_CA
  key := .ec 23 ((CERT_ROOT_EC_DER.drop 146).take 65)

/-- Tables with one certificate each, repeated. -/
def repeatedTables (builtin extra : List UInt8) : RootTables where
  builtin := List.replicate WM_BUILTIN_ROOT_COUNT builtin
  extra := List.replicate WM_EXTRA_ROOT_COUNT extra
  builtin_count := List.length_replicate
  extra_count := List.length_replicate

end BearTLS
